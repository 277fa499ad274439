import PubSub.Proofs.Broker.Matching
import PubSub.Proofs.Broker.Order

/-!
# Registrations before and after a write

A client gets the first write of a variable whether it registers before or after it. If it registers
before, the write is fanned out to it; if it registers after, the registration itself brings the
variable as it stands (`Broker.mailOn_registration`). These are different paths, but on both of them
the client gets one message if the registration is for the variable, and both messages tell of the
write (`Broker.first_write_in_either_order`).
-/

namespace PubSub.Broker

/-- The interval that a registration asks for, if the registration can be read. -/
def interval? (r : Message) : Option Float :=
  match r.type with
  | .register => some (Bounds.raised r.value)
  | .wildcardRegister => (Filter.parse r.textValue).toOption.map fun f => Bounds.raised f.period
  | _ => none

/-- Whether a registration is for a variable and a writer: by the name of the variable, or by a
filter that covers both. -/
def registersFor (r : Message) (source key : String) : Bool :=
  match r.type with
  | .register => r.key == key
  | .wildcardRegister => (Filter.parse r.textValue).toOption.any (·.covers source key)
  | _ => false

variable {b : Broker} {client key : String} {now period i : Float} {r : Message}

/-- A registration that can be read is by name or by a filter. -/
theorem registration_cases (h : interval? r = some i) :
    (r.type = .register ∧ Bounds.raised r.value = i) ∨
      r.type = .wildcardRegister ∧
        ∃ f, Filter.parse r.textValue = .ok f ∧ Bounds.raised f.period = i := by
  rw [interval?] at h
  split at h
  case h_1 htype => exact .inl ⟨htype, Option.some.inj h⟩
  case h_2 htype =>
    cases hf : Filter.parse r.textValue with
    | error e => rw [hf] at h; cases h
    | ok f => rw [hf] at h; exact .inr ⟨htype, f, rfl, Option.some.inj h⟩
  case h_3 => cases h

theorem registersFor_of_register (h : r.type = .register) (source : String) :
    registersFor r source key = (r.key == key) := by
  rw [registersFor, h]

theorem registersFor_of_filter (h : r.type = .wildcardRegister) {f : Filter}
    (hf : Filter.parse r.textValue = .ok f) (source : String) :
    registersFor r source key = f.covers source key := by
  rw [registersFor, h, hf]
  rfl

/-! ## What a registration does -/

/-- The variables that a filter covers by now. -/
def coveredBy (b : Broker) (f : Filter) : List Variable :=
  b.store.values.filter fun v => f.covers v.writer v.name

theorem processed_of_filter (h : r.type = .wildcardRegister) {f : Filter}
    (hf : Filter.parse r.textValue = .ok f) :
    b.processed now client r =
      Step.run ((b.coveredBy f).map fun v => .subscribe client v.name f.period now)
        ((Step.keep client f).apply b) := by
  rw [← run_message, Script.message_of_wildcardRegister b h, hf]
  rfl

/-- No variable is covered twice. -/
theorem nodup_coveredBy (hn : b.Named) (f : Filter) : ((b.coveredBy f).map (·.name)).Nodup := by
  have hnames : b.store.values.map (·.name) = b.store.names := by
    rw [Table.values, List.map_map]
    exact List.map_congr_left fun e he => hn e.1 e.2 (Table.mem_entries_iff.1 he)
  exact (hnames ▸ b.store.nodup_names).sublist (List.filter_sublist.map _)

theorem mem_coveredBy_iff (hn : b.Named) {f : Filter} :
    key ∈ (b.coveredBy f).map (·.name) ↔ b.isCovered f key = true :=
  List.mem_map.trans (isCovered_iff hn).symm

/-! ## The mail that a registration brings -/

/-- A subscription leaves what a variable tells as it is. -/
theorem snapshot_subscribe (b : Broker) (client k key : String) (period now : Float) :
    (b.subscribe client k period now).snapshot key = b.snapshot key := by
  by_cases hkey : key = k
  · subst hkey
    obtain ⟨v, subscriptions, hv, hget, -⟩ := get?_store_subscribe b client key period now
    rw [snapshot, hget, snapshot]
    cases hstore : b.store.get? key with
    | none => rw [hv, hstore]; rfl
    | some u => rw [hv, hstore]; rfl
  · rw [snapshot, get?_store_subscribe_of_ne client period now hkey, snapshot]

theorem mailOn_subscribe (hn : b.Named) (client k key : String) (period now : Float) :
    (b.subscribe client k period now).mailOn client key =
      b.mailOn client key ++ if k = key then b.snapshot key else [] := by
  rw [mailOn, heldFor_subscribe, if_pos rfl, List.filter_append, mailOn]
  split
  case isTrue hkey =>
    subst hkey
    rw [List.filter_eq_self.2 fun w (hw : w ∈ b.snapshot k) =>
      beq_iff_eq.2 (hn.key_of_mem_snapshot hw)]
  case isFalse hkey => rw [filter_snapshot_of_ne hn hkey]

/-- Subscriptions to several variables bring the mail of each of them. -/
theorem mailOn_run_subscribe (hn : b.Named) {vs : List Variable} (hvs : (vs.map (·.name)).Nodup) :
    (Step.run (vs.map fun v => .subscribe client v.name period now) b).mailOn client key =
      b.mailOn client key ++ if key ∈ vs.map (·.name) then b.snapshot key else [] := by
  induction vs generalizing b with
  | nil => simp
  | cons v vs ih =>
    obtain ⟨hhead, htail⟩ := List.nodup_cons.1 hvs
    rw [List.map_cons, Step.run_cons, ih (hn.apply _) htail, Step.apply, mailOn_subscribe hn,
      snapshot_subscribe, List.append_assoc]
    congr 1
    by_cases hkey : v.name = key
    · subst hkey
      rw [if_pos rfl, if_neg hhead, List.append_nil, if_pos (.head _)]
    · simp [hkey, Ne.symm hkey]

/-- A registration brings its client one message of each written variable that it is for, and no
other mail. -/
theorem mailOn_registration (hn : b.Named) (hr : interval? r = some i) (client key : String) :
    (b.processed now client r).mailOn client key = b.mailOn client key ++
      if (b.store.get? key).any (fun v => registersFor r v.writer key) then b.snapshot key
      else [] := by
  obtain ⟨htype, -⟩ | ⟨htype, f, hf, -⟩ := registration_cases hr
  · rw [processed_of_register b now client htype, mailOn_subscribe hn]
    congr 1
    simp only [registersFor_of_register htype]
    cases hv : b.store.get? key with
    | none => simp [snapshot, hv]
    | some v => simp
  · rw [processed_of_filter htype hf, mailOn_run_subscribe (hn.apply _) (nodup_coveredBy hn f)]
    simp only [registersFor_of_filter htype hf, mem_coveredBy_iff hn]
    rfl

/-! ## The first write after a registration -/

theorem config_run_subscribe (vs : List Variable) (b : Broker) :
    (Step.run (vs.map fun v => .subscribe client v.name period now) b).config = b.config := by
  induction vs generalizing b with
  | nil => rfl
  | cons v vs ih => rw [List.map_cons, Step.run_cons, ih, Step.apply, config_subscribe]

/-- Subscriptions to other variables leave a variable as it is, and all filters. -/
theorem run_subscribe_of_ne {vs : List Variable} (hvs : ∀ v ∈ vs, v.name ≠ key) (client : String)
    (period now : Float) (b : Broker) :
    let b' := Step.run (vs.map fun v => .subscribe client v.name period now) b
    b'.store.get? key = b.store.get? key ∧ b'.filters = b.filters := by
  induction vs generalizing b with
  | nil => exact ⟨rfl, rfl⟩
  | cons v vs ih =>
    obtain ⟨hv, hvs⟩ := List.forall_mem_cons.1 hvs
    obtain ⟨hstore, hfilters⟩ := ih hvs (b.subscribe client v.name period now)
    exact ⟨hstore.trans (get?_store_subscribe_of_ne client period now (Ne.symm hv)),
      hfilters.trans (filters_subscribe ..)⟩

theorem unwritten_of_absent (h : b.store.get? key = none) : b.Unwritten key := by
  intro v hv
  rw [h] at hv
  cases hv

theorem unwritten_subscribe (h : b.Unwritten key) (client k : String) (period now : Float) :
    (b.subscribe client k period now).Unwritten key := by
  intro u hu
  by_cases hkey : key = k
  · subst hkey
    obtain ⟨v, subscriptions, hv, hget, -⟩ := get?_store_subscribe b client key period now
    rw [hget] at hu
    rw [← Option.some.inj hu, hv]
    exact h.writes_getD rfl
  · rw [get?_store_subscribe_of_ne client period now hkey] at hu
    exact h u hu

theorem subscription?_subscribe_of_absent (h : b.store.get? key = none) :
    (b.subscribe client key period now).subscription? client key =
      some { period := Bounds.raised period } := by
  obtain ⟨v, subscriptions, hv, hget, hsubscriptions⟩ :=
    get?_store_subscribe b client key period now
  rw [subscription?, hget, Option.bind_some, hsubscriptions, if_pos rfl, hv, h]
  rfl

/-- A client with no filter for a write has at most the one that it registers. -/
theorem covering_keep {m : Message} (h : b.covering client m = []) (f : Filter) :
    ((Step.keep client f).apply b).covering client m = [f].filter (·.covers m.source m.key) := by
  rw [covering, Step.filtersOf_keep, if_pos rfl, List.filter_append]
  refine (congrArg (· ++ _) (List.filter_eq_nil_iff.2 fun g hg => ?_)).trans (List.nil_append _)
  exact List.filter_eq_nil_iff.1 h g (List.mem_filter.1 hg).1

variable {m : Message}

/-- The client's subscription at the first write of a variable after a registration by name. -/
theorem target_of_register (habsent : b.store.get? m.key = none)
    (hcovering : b.covering client m = []) (k : String) (period now : Float) :
    let b' := b.subscribe client k period now
    b'.Unwritten m.key ∧ (b'.target now m).subscriptions.get? client =
      if k = m.key then some { period := Bounds.raised period } else none := by
  intro b'
  have hunwritten : b'.Unwritten m.key :=
    unwritten_subscribe (unwritten_of_absent habsent) client k period now
  have hfilters : b'.covering client m = [] := by
    rw [covering, filtersOf, filters_subscribe]
    exact hcovering
  refine ⟨hunwritten, ?_⟩
  rw [get?_subscriptions_target, if_pos hunwritten, hfilters]
  refine Option.none_or.trans ?_
  by_cases hkey : k = m.key
  · subst hkey
    rw [subscription?_subscribe_of_absent habsent, if_pos rfl]
  · rw [subscription?, get?_store_subscribe_of_ne client _ now (Ne.symm hkey), habsent, if_neg hkey]
    rfl

/-- The client's subscription at the first write of a variable after a registration by a filter. -/
theorem target_of_filter (hn : b.Named) (habsent : b.store.get? m.key = none)
    (hcovering : b.covering client m = []) (f : Filter) :
    let b' := Step.run ((b.coveredBy f).map fun v => .subscribe client v.name f.period now)
      ((Step.keep client f).apply b)
    b'.Unwritten m.key ∧ (b'.target now m).subscriptions.get? client =
      if f.covers m.source m.key then some { period := Bounds.raised f.period } else none := by
  intro b'
  have hothers : ∀ v ∈ b.coveredBy f, v.name ≠ m.key := by
    intro v hv hname
    have hcovered := (mem_coveredBy_iff hn).1 (List.mem_map.2 ⟨v, hv, hname⟩)
    rw [isCovered, habsent] at hcovered
    cases hcovered
  obtain ⟨hstore, hkept⟩ := run_subscribe_of_ne hothers client f.period now
    ((Step.keep client f).apply b)
  have hstill : b'.store.get? m.key = none := hstore.trans habsent
  have hfilters : b'.covering client m = [f].filter (·.covers m.source m.key) := by
    rw [covering, filtersOf, show b'.filters = _ from hkept]
    exact covering_keep hcovering f
  refine ⟨unwritten_of_absent hstill, ?_⟩
  rw [get?_subscriptions_target, if_pos (unwritten_of_absent hstill), hfilters, subscription?,
    hstill]
  by_cases hcovers : f.covers m.source m.key = true <;> simp [hcovers]

/-- If a client has no filter for the first write of a variable, it is subscribed by the
registration before the write, if this is for the write, or not at all. -/
theorem target_registration (hn : b.Named) (hr : interval? r = some i)
    (habsent : b.store.get? m.key = none) (hcovering : b.covering client m = []) (now : Float) :
    (b.processed now client r).Unwritten m.key ∧
      ((b.processed now client r).target now m).subscriptions.get? client =
        if registersFor r m.source m.key then some { period := i } else none := by
  obtain ⟨htype, rfl⟩ | ⟨htype, f, hf, rfl⟩ := registration_cases hr
  · have htarget := target_of_register habsent hcovering r.key r.value now
    rw [processed_of_register b now client htype, registersFor_of_register htype]
    simpa only [beq_iff_eq] using htarget
  · rw [processed_of_filter htype hf, registersFor_of_filter htype hf]
    exact target_of_filter hn habsent hcovering f

theorem config_registration (hr : interval? r = some i) :
    (b.processed now client r).config = b.config := by
  obtain ⟨htype, -⟩ | ⟨htype, f, hf, -⟩ := registration_cases hr
  · rw [processed_of_register b now client htype, config_subscribe]
  · rw [processed_of_filter htype hf, config_run_subscribe]
    rfl

/-! ## Either order -/

/-- A client's mail of a variable is one message longer, which tells of the write. -/
def Gains (client key : String) (write : Message) (b b' : Broker) : Prop :=
  ∃ w, b'.mailOn client key = b.mailOn client key ++ [w] ∧ w.Carries write

/-- A subscription that has never been served counts as served at the time -1. -/
theorem isDue_unserved (h : i ≤ now + 1.0) : ({ period := i } : Subscription).isDue now = true :=
  decide_eq_true (by rwa [Double.sub_neg_one])

/-- The first write of a variable is added to the mail of a client that is due, and the mail of one
that is not subscribed stays as it is. -/
theorem mailOn_first_write (hm : m.type = .notify) (hunwritten : b.Unwritten m.key)
    {x? : Option Subscription} (htarget : (b.target now m).subscriptions.get? client = x?)
    (hdue : ∀ x ∈ x?, x.isDue now = true) :
    ((Step.write now m hm).apply b).mailOn client m.key =
      b.mailOn client m.key ++ if x?.isSome then [m.stamped b.config.community] else [] := by
  rw [Step.apply_write_of_accepts hm (accepts_of_unwritten hunwritten), mailOn, heldFor_fanOut,
    Variable.write_subscriptions, htarget]
  cases x? with
  | none => simp [mailOn]
  | some x => simp [hdue x rfl, mailOn]

/-- A variable that has just been written for the first time. -/
theorem get?_store_first_write (hn : b.Named) (hm : m.type = .notify)
    (hunwritten : b.Unwritten m.key) (now : Float) :
    ∃ v, ((Step.write now m hm).apply b).store.get? m.key = some v ∧ v.writer = m.source ∧
      v.writes ≠ 0 ∧ (v.toMessage .notify).Carries (m.stamped b.config.community) := by
  have haccepts : b.Accepts now m := accepts_of_unwritten hunwritten
  have hname : ((b.target now m).write m now b.config.community).name = m.key := by
    rw [Variable.write_name, hn.target]
  rw [Step.apply_write_of_accepts hm haccepts, get?_store_fanOut, if_pos hname.symm]
  refine ⟨_, rfl, Variable.write_writer .., ?_, ?_⟩
  · show (Variable.write _ m now _).writes ≠ 0
    simp
  · exact Variable.carries_write _ m now _ (hn.target now m) haccepts

/-- The registration comes first, and the write is fanned out to the client. -/
theorem mailOn_registration_write (hn : b.Named) (hr : interval? r = some i) (hm : m.type = .notify)
    (hdue : i ≤ now + 1.0) (habsent : b.store.get? m.key = none)
    (hcovering : b.covering client m = []) :
    ((Step.write now m hm).apply (b.processed now client r)).mailOn client m.key =
      b.mailOn client m.key ++
        if registersFor r m.source m.key then [m.stamped b.config.community] else [] := by
  obtain ⟨hstill, htarget⟩ := target_registration hn hr habsent hcovering now
  have hserved : ∀ x ∈ if registersFor r m.source m.key then some { period := i } else none,
      Subscription.isDue x now = true := by
    intro x hx
    split at hx
    · exact Option.some.inj hx ▸ isDue_unserved hdue
    · cases hx
  rw [mailOn_first_write hm hstill htarget hserved, mailOn_registration hn hr, habsent,
    config_registration hr]
  simp

/-- The write comes first, and the registration brings the variable as it stands. -/
theorem mailOn_write_registration (hn : b.Named) (hr : interval? r = some i) (hm : m.type = .notify)
    (habsent : b.store.get? m.key = none) (hcovering : b.covering client m = []) (now : Float) :
    ∃ w, w.Carries (m.stamped b.config.community) ∧
      (((Step.write now m hm).apply b).processed now client r).mailOn client m.key =
        b.mailOn client m.key ++ if registersFor r m.source m.key then [w] else [] := by
  have hunwritten := unwritten_of_absent habsent
  have htarget : (b.target now m).subscriptions.get? client = none := by
    rw [get?_subscriptions_target, if_pos hunwritten, hcovering, subscription?, habsent]
    rfl
  obtain ⟨v, hv, hwriter, hw, htells⟩ := get?_store_first_write hn hm hunwritten now
  refine ⟨v.toMessage .notify, htells, ?_⟩
  rw [mailOn_registration (hn.apply _) hr, hv, snapshot_of_written hv hw,
    mailOn_first_write hm hunwritten htarget (by simp)]
  simp [hwriter]

/-- Let a variable not be in the broker's table, and let a client have no filter for the write of
it. If the client registers for something with an interval of at most the broker's time plus 1, then
it does not matter to its mail of the variable whether it does so before or after the write: it gets
one message, which tells of the write, if the registration is for the write, and none otherwise. -/
theorem first_write_in_either_order (config : Config) (startTime : Float)
    (acts : List (Float × Act)) (now : Float) (client sender : String) (r m : Message) (i : Float)
    {b first second : Broker} (hb : b = performActs acts (start config startTime))
    (hfirst : first = (b.processed now client r).processed now sender m)
    (hsecond : second = (b.processed now sender m).processed now client r)
    (hr : interval? r = some i) (hdue : i ≤ now + 1.0) (hm : m.type = .notify)
    (habsent : b.store.get? m.key = none) (hcovering : b.covering client m = []) :
    if registersFor r m.source m.key then
      Gains client m.key (m.stamped b.config.community) b first ∧
        Gains client m.key (m.stamped b.config.community) b second
    else
      first.mailOn client m.key = b.mailOn client m.key ∧
        second.mailOn client m.key = b.mailOn client m.key := by
  have hn : b.Named := hb ▸ (named_start config startTime).performActs acts
  rw [processed_of_notify _ now sender hm] at hfirst hsecond
  have hmail := mailOn_registration_write hn hr hm hdue habsent hcovering
  obtain ⟨w, htells, hmail'⟩ := mailOn_write_registration hn hr hm habsent hcovering now
  rw [← hfirst] at hmail
  rw [← hsecond] at hmail'
  split
  case isTrue hfor =>
    rw [if_pos hfor] at hmail hmail'
    have hself : (m.stamped b.config.community).type = .notify := by rw [Message.stamped_type, hm]
    exact ⟨⟨_, hmail, .refl hself⟩, ⟨w, hmail', htells⟩⟩
  case isFalse hother =>
    rw [if_neg hother, List.append_nil] at hmail hmail'
    exact ⟨hmail, hmail'⟩

/-- Another application has written another variable. -/
def unrelatedRun : List (Float × Act) := [(1.0, .process "Q" (writeBy "Q" "Y"))]

theorem first_write_in_either_order_slow :
    let b := performActs unrelatedRun (start (.ofCommunity "#1") 0.0)
    let m := writeBy "P" "X"
    (interval? registerSlow = some 5.0 ∧ (5.0 : Float) ≤ 4.0 + 1.0 ∧ m.type = .notify ∧
        b.store.get? m.key = none ∧ b.covering "C" m = []) ∧
      registersFor registerSlow m.source m.key = true ∧
      Gains "C" "X" (m.stamped "#1") b
        ((b.processed 4.0 "C" registerSlow).processed 4.0 "P" m) ∧
      Gains "C" "X" (m.stamped "#1") b
        ((b.processed 4.0 "P" m).processed 4.0 "C" registerSlow) := by
  intro b m
  have hr : interval? registerSlow = some 5.0 := by decide +kernel
  have hdue : (5.0 : Float) ≤ 4.0 + 1.0 := by decide +kernel
  have habsent : b.store.get? m.key = none := by decide +kernel
  have hcovering : b.covering "C" m = [] := by decide +kernel
  have hfor : registersFor registerSlow m.source m.key = true := by decide +kernel
  have hgains := first_write_in_either_order (.ofCommunity "#1") 0.0 unrelatedRun 4.0 "C" "P"
    registerSlow m 5.0 rfl rfl rfl hr hdue rfl habsent hcovering
  rw [if_pos hfor] at hgains
  exact ⟨⟨hr, hdue, rfl, habsent, hcovering⟩, hfor, hgains⟩

end PubSub.Broker
