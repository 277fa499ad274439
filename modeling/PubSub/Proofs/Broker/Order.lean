import PubSub.Proofs.Broker.Run

/-!
# The order of a client's mail

A client may miss writes of a variable, when it is not due, but what it gets is in order
(`Broker.mail_inOrder`): no mail tells of an earlier write than the mail before it, and the last one
held for a subscriber tells of the latest write.

The invariant of each step is `Broker.Told`. It speaks of one variable and of one client's mail of
it. Mail comes from writes and from registrations; both tell of the latest write, since a variable
keeps what its last write said. A variable that has not been written is in nobody's held mail,
because the steps that make it so drop the mail as well.
-/

namespace PubSub.Broker

/-! ## Mail in order -/

/-- Each message carries one of the writes, and none an earlier one than a message before it. -/
def InOrder (writes mail : List Message) : Prop :=
  ∃ numbers : List Nat, numbers.Pairwise (· ≤ ·) ∧
    List.Forall₂ (fun i m => ∃ write, writes[i]? = some write ∧ m.Carries write) numbers mail

/-- The message carries the last one of the writes. -/
def CarriesLast (m : Message) (writes : List Message) : Prop :=
  ∃ write, writes.getLast? = some write ∧ m.Carries write

theorem inOrder_nil (writes : List Message) : InOrder writes [] := ⟨[], .nil, .nil⟩

/-- More writes leave the order of mail as it is. -/
theorem InOrder.mono {writes mail : List Message} (h : InOrder writes mail) (more : List Message) :
    InOrder (writes ++ more) mail := by
  obtain ⟨numbers, hsorted, hcarries⟩ := h
  refine ⟨numbers, hsorted, hcarries.imp ?_⟩
  rintro i m ⟨write, hwrite, hm⟩
  exact ⟨write, List.getElem?_append_left (List.getElem?_eq_some_iff.1 hwrite).1 ▸ hwrite, hm⟩

theorem InOrder.of_append {writes mail more : List Message} (h : InOrder writes (mail ++ more)) :
    InOrder writes mail := by
  obtain ⟨numbers, hsorted, hcarries⟩ := h
  have htake := List.forall₂_take mail.length hcarries
  rw [List.take_left] at htake
  exact ⟨_, hsorted.sublist (List.take_sublist ..), htake⟩

/-- Mail that tells of the last write comes after all other mail. -/
theorem InOrder.concat {writes mail : List Message} {m : Message} (h : InOrder writes mail)
    (hm : CarriesLast m writes) : InOrder writes (mail ++ [m]) := by
  obtain ⟨numbers, hsorted, hcarries⟩ := h
  obtain ⟨write, hlast, hm⟩ := hm
  have hbound : ∀ i ∈ numbers, i < writes.length :=
    ((List.forall₂_and_left numbers mail).1 (hcarries.imp fun i _ h =>
      ⟨(List.getElem?_eq_some_iff.1 h.choose_spec.1).1, h⟩)).1
  refine ⟨numbers ++ [writes.length - 1], List.pairwise_append.2 ⟨hsorted, by simp, ?_⟩,
    List.rel_append hcarries (.cons ⟨write, ?_, hm⟩ .nil)⟩
  · intro i hi j hj
    have hlt := hbound i hi
    rw [List.mem_singleton.1 hj]
    omega
  · rw [← hlast, List.getLast?_eq_getElem?]

theorem InOrder.type {writes mail : List Message} (h : InOrder writes mail) :
    ∀ m ∈ mail, m.type = .notify := by
  obtain ⟨numbers, -, hcarries⟩ := h
  exact ((List.forall₂_and_left mail numbers).1 (hcarries.flip.imp fun m _ h =>
    ⟨h.choose_spec.2.type, h⟩)).1

/-! ## What a client knows of a variable -/

/-- The mail of a variable that a client has not collected. -/
def mailOn (b : Broker) (client key : String) : List Message :=
  (b.heldFor client).filter (·.key == key)

/-- What holds of a variable, if it exists, of the writes of it, and of the mail of it that a client
has been handed and that is held for it. -/
structure Told (client : String) (v? : Option Variable) (writes handed held : List Message) :
    Prop where
  /-- A variable keeps what its last write said. -/
  current : ∀ v, v? = some v → v.writes ≠ 0 → CarriesLast (v.toMessage .notify) writes
  /-- No mail is held of a variable that has not been written. -/
  unwritten : (∀ v, v? = some v → v.writes = 0) → held = []
  inOrder : InOrder writes (handed ++ held)
  /-- The last held mail of a subscriber tells of the last write. -/
  last : ∀ v, v? = some v → v.isSubscribed client → ∀ m, held.getLast? = some m →
    CarriesLast m writes

variable {client : String} {v? : Option Variable} {v : Variable} {writes handed held : List Message}

theorem told_of_unwritten (hw : ∀ v, v? = some v → v.writes = 0) (h : InOrder writes handed) :
    Told client v? writes handed [] where
  current v hv hwritten := absurd (hw v hv) hwritten
  unwritten _ := rfl
  inOrder := by rw [List.append_nil]; exact h
  last _ _ _ _ hm := by cases hm

theorem told_of_written (hw : v.writes ≠ 0) (hv : CarriesLast (v.toMessage .notify) writes)
    (h : InOrder writes (handed ++ held))
    (hlast : v.isSubscribed client → ∀ m, held.getLast? = some m → CarriesLast m writes) :
    Told client (some v) writes handed held where
  current _ hu _ := Option.some.inj hu ▸ hv
  unwritten hunwritten := absurd (hunwritten v rfl) hw
  inOrder := h
  last _ hu := Option.some.inj hu ▸ hlast

/-- Mail that tells of the last write comes after all other mail. -/
theorem told_concat {m : Message} (hw : v.writes ≠ 0)
    (hv : CarriesLast (v.toMessage .notify) writes) (h : InOrder writes (handed ++ held))
    (hm : CarriesLast m writes) : Told client (some v) writes handed (held ++ [m]) := by
  refine told_of_written hw hv ?_ fun _ n hn => ?_
  · rw [← List.append_assoc]
    exact h.concat hm
  · rw [List.getLast?_concat, Option.some.injEq] at hn
    exact hn ▸ hm

/-- The mail is handed out. -/
theorem Told.hand (h : Told client v? writes handed held) :
    Told client v? writes (handed ++ held) [] where
  current := h.current
  unwritten _ := rfl
  inOrder := by rw [List.append_nil]; exact h.inOrder
  last _ _ _ _ hm := by cases hm

/-- The mail is dropped. -/
theorem Told.forget (h : Told client v? writes handed held) : Told client v? writes handed [] where
  current := h.current
  unwritten _ := rfl
  inOrder := by rw [List.append_nil]; exact h.inOrder.of_append
  last _ _ _ _ hm := by cases hm

/-- A change of the variable that leaves what it tells and gains no subscription. -/
theorem Told.map (h : Told client v? writes handed held) {f : Variable → Variable}
    (hmessage : ∀ v, (f v).toMessage .notify = v.toMessage .notify)
    (hwrites : ∀ v, (f v).writes = v.writes)
    (hsubscribed : ∀ v, (f v).isSubscribed client → v.isSubscribed client) :
    Told client (v?.map f) writes handed held where
  current v hv hw := by
    obtain ⟨u, hu, rfl⟩ := Option.map_eq_some_iff.1 hv
    rw [hmessage]
    rw [hwrites] at hw
    exact h.current u hu hw
  unwritten hw := by
    refine h.unwritten fun v hv => ?_
    rw [← hwrites]
    exact hw (f v) (Option.map_eq_some_iff.2 ⟨v, hv, rfl⟩)
  inOrder := h.inOrder
  last v hv hsub := by
    obtain ⟨u, hu, rfl⟩ := Option.map_eq_some_iff.1 hv
    exact h.last u hu (hsubscribed u hsub)

/-- The variable tells of a new write, and so does new mail at the end of some of the held mail.
There may be none if the client does not subscribe or has no mail of the variable. -/
theorem Told.write {write : Message} {held' : List Message} (h : Told client v? writes handed held)
    (hv : CarriesLast (v.toMessage .notify) (writes ++ [write])) (hw : v.writes ≠ 0)
    (hm : write.type = .notify)
    (hheld : held' = held ∧ (v.isSubscribed client → held = []) ∨
      ∃ earlier, earlier <+: held ∧ held' = earlier ++ [write]) :
    Told client (some v) (writes ++ [write]) handed held' := by
  have hlast : CarriesLast write (writes ++ [write]) :=
    ⟨write, List.getLast?_concat, .refl hm⟩
  obtain ⟨rfl, hnone⟩ | ⟨earlier, ⟨rest, rfl⟩, rfl⟩ := hheld
  · refine told_of_written hw hv (h.inOrder.mono _) fun hsub m hm => ?_
    rw [hnone hsub] at hm
    cases hm
  · have hall := h.inOrder
    rw [← List.append_assoc] at hall
    have hearlier : InOrder writes (handed ++ earlier) := hall.of_append
    exact told_concat hw hv (hearlier.mono _) hlast

/-- A client subscribes to a variable that has been written. Only that client is sent it. -/
theorem Told.subscribe {u : Variable} {held' : List Message}
    (h : Told client (some v) writes handed held) (hv : v.writes ≠ 0) (hw : u.writes = v.writes)
    (hu : u.toMessage .notify = v.toMessage .notify)
    (hheld : held' = held ++ [v.toMessage .notify] ∨
      held' = held ∧ (u.isSubscribed client → v.isSubscribed client)) :
    Told client (some u) writes handed held' := by
  have hlast := h.current v rfl hv
  obtain rfl | ⟨rfl, hsubscribed⟩ := hheld
  · exact told_concat (hw ▸ hv) (hu ▸ hlast) h.inOrder hlast
  · exact told_of_written (hw ▸ hv) (hu ▸ hlast) h.inOrder fun hsub =>
      h.last v rfl (hsubscribed hsub)

/-! ## One step -/

variable {b : Broker} {key : String}

theorem told_write (hn : b.Named) {now : Float} {m : Message} (hm : m.type = .notify)
    (haccepts : b.Accepts now m)
    (h : Told client (b.store.get? m.key) writes handed (b.mailOn client m.key)) :
    Told client (((Step.write now m hm).apply b).store.get? m.key)
      (writes ++ [m.stamped b.config.community]) handed
      (((Step.write now m hm).apply b).mailOn client m.key) := by
  have hname : ((b.target now m).write m now b.config.community).name = m.key := by
    rw [Variable.write_name, hn.target]
  rw [Step.apply_write_of_accepts hm haccepts, get?_store_fanOut, if_pos hname.symm]
  refine h.write ⟨_, List.getLast?_concat, ?_⟩ ?_ ?_ ?_
  · exact Variable.carries_write _ m now _ (hn.target now m) haccepts
  · show (Variable.write _ m now _).writes ≠ 0
    simp
  · simp [hm]
  · have htype : ∀ n ∈ b.heldFor client, n.key = (m.stamped b.config.community).key →
        n.type = .notify := fun n hn hkey =>
      h.inOrder.type n (List.mem_append_right _ (List.mem_filter.2 ⟨hn, by simpa using hkey⟩))
    rw [mailOn, heldFor_fanOut]
    cases hs : ((b.target now m).write m now b.config.community).subscriptions.get? client with
    | none =>
      refine .inl ⟨rfl, fun hsub => ?_⟩
      obtain ⟨s, hget⟩ := Variable.isSubscribed_eq_true_iff.1 hsub
      rw [Table.get?_map, hs] at hget
      cases hget
    | some s =>
      by_cases hdue : s.isDue now
      · refine .inr ⟨_, List.prefix_rfl, ?_⟩
        simp [hdue, mailOn]
      · have hreplace := filter_replaceLast htype
        rw [Message.stamped_key] at hreplace
        simp only [hdue, if_false, Bool.false_eq_true]
        obtain ⟨hnone', hnone⟩ | ⟨earlier, n, hmail, hmail'⟩ := hreplace
        · exact .inl ⟨hnone'.trans hnone.symm, fun _ => hnone⟩
        · exact .inr ⟨earlier, ⟨[n], hmail.symm⟩, hmail'⟩

theorem told_subscribe (hn : b.Named) (c : String) (period now : Float)
    (h : Told client (b.store.get? key) writes handed (b.mailOn client key)) :
    Told client ((b.subscribe c key period now).store.get? key) writes handed
      ((b.subscribe c key period now).mailOn client key) := by
  obtain ⟨u, subscriptions, hu, hget, hsubscriptions⟩ := get?_store_subscribe b c key period now
  rw [hget, mailOn, heldFor_subscribe]
  obtain ⟨v, hv, hw⟩ | hunwritten := b.written_or_unwritten key
  · obtain rfl : u = v := by rw [hu, hv, Option.getD_some]
    rw [hv] at h
    refine h.subscribe (u := { u with subscriptions }) hw rfl rfl ?_
    rw [snapshot_of_written hv hw]
    by_cases hc : client = c
    · have hkey : (u.toMessage .notify).key = key := hn key u hv
      rw [if_pos hc]
      exact .inl (by simp [hkey, mailOn])
    · rw [if_neg hc]
      refine .inr ⟨rfl, fun hsub => ?_⟩
      obtain ⟨s, hs⟩ := Variable.isSubscribed_eq_true_iff.1 hsub
      rw [hsubscriptions, if_neg hc] at hs
      exact Variable.isSubscribed_eq_true_iff.2 ⟨s, hs⟩
  · have hheld : (b.heldFor client).filter (·.key == key) = [] := h.unwritten hunwritten
    rw [snapshot_of_unwritten hunwritten, List.append_nil, ite_self, hheld]
    refine told_of_unwritten (fun w hw => ?_) h.inOrder.of_append
    rw [← Option.some.inj hw, hu]
    exact hunwritten.writes_getD rfl

theorem told_write_of_ne (hn : b.Named) {now : Float} {m : Message} (hm : m.type = .notify)
    (haccepts : b.Accepts now m) (hkey : m.key ≠ key)
    (h : Told client (b.store.get? key) writes handed (b.mailOn client key)) :
    Told client (((Step.write now m hm).apply b).store.get? key) writes handed
      (((Step.write now m hm).apply b).mailOn client key) := by
  have hname : ((b.target now m).write m now b.config.community).name = m.key := by
    rw [Variable.write_name, hn.target]
  have hstamped : (m.stamped b.config.community).key ≠ key := by rwa [Message.stamped_key]
  have hmail : (((Step.write now m hm).apply b).mailOn client key) = b.mailOn client key := by
    rw [Step.apply_write_of_accepts hm haccepts, mailOn, heldFor_fanOut]
    split
    · rfl
    · split
      · simp [mailOn, hkey]
      · exact filter_replaceLast_of_ne hstamped _
  rw [hmail, Step.apply_write_of_accepts hm haccepts, get?_store_fanOut, hname,
    if_neg (Ne.symm hkey)]
  exact h

theorem filter_snapshot_of_ne (hn : b.Named) {k : String} (hk : k ≠ key) :
    (b.snapshot k).filter (·.key == key) = [] :=
  List.filter_eq_nil_iff.2 fun _ hw hkey =>
    hk ((hn.key_of_mem_snapshot hw).symm.trans (eq_of_beq hkey))

theorem told_apply (hn : b.Named) (s : Step)
    (h : Told client (b.store.get? key) writes handed (b.mailOn client key)) :
    Told client ((s.apply b).store.get? key) (writes ++ (s.accepted b).filter (·.key == key))
      (handed ++ (s.handed client b).filter (·.key == key)) ((s.apply b).mailOn client key) := by
  cases s with
  | write now m hm =>
    simp only [Step.handed, List.filter_nil, List.append_nil]
    by_cases haccepts : b.Accepts now m
    · rw [Step.accepted, if_pos haccepts]
      by_cases hkey : m.key = key
      · subst hkey
        simpa using told_write hn hm haccepts h
      · simpa [hkey] using told_write_of_ne hn hm haccepts hkey h
    · rw [Step.accepted, if_neg haccepts, Step.apply_write_of_not_accepts hm haccepts,
        List.filter_nil, List.append_nil]
      exact h
  | subscribe c k period now =>
    simp only [Step.accepted, Step.handed, List.filter_nil, List.append_nil]
    by_cases hkey : k = key
    · subst hkey
      exact told_subscribe hn c period now h
    · rw [Step.apply, get?_store_subscribe_of_ne c period now (Ne.symm hkey), mailOn,
        heldFor_subscribe]
      split
      · rw [List.filter_append, filter_snapshot_of_ne hn hkey, List.append_nil]
        exact h
      · exact h
  | withdraw c ends =>
    simp only [Step.accepted, Step.handed, List.filter_nil, List.append_nil]
    rw [Step.get?_store_withdraw]
    refine h.map ?_ ?_ ?_ <;> intro v <;> split
    case refine_3.isTrue => exact Variable.isSubscribed_of_unsubscribe
    all_goals first | rfl | exact id
  | clear now =>
    simp only [Step.accepted, Step.handed, List.filter_nil, List.append_nil]
    rw [Step.get?_store_clear, mailOn, Step.apply, Step.heldFor_clear]
    refine told_of_unwritten (fun v hv => ?_) h.inOrder.of_append
    obtain ⟨u, -, rfl⟩ := Option.map_eq_some_iff.1 hv
    rfl
  | collect c =>
    simp only [Step.accepted, List.filter_nil, List.append_nil]
    rw [mailOn, Step.apply, store_collect, heldFor_collect, Step.handed]
    by_cases hc : c = client
    · rw [if_pos hc, if_pos hc.symm]
      exact h.hand
    · rw [if_neg hc, if_neg (Ne.symm hc), List.filter_nil, List.append_nil]
      exact h
  | forget c =>
    simp only [Step.accepted, Step.handed, List.filter_nil, List.append_nil]
    rw [mailOn, Step.heldFor_forget]
    split
    · exact h.forget
    · exact h
  | keep | drop | note =>
    simp only [Step.accepted, Step.handed, List.filter_nil, List.append_nil]
    exact h

/-! ## Runs -/

theorem unwritten_start (config : Config) (now : Float) (key : String) :
    (start config now).Unwritten key := by
  intro v hv
  obtain ⟨value, rfl⟩ := eq_initialVariable hv
  rfl

theorem told_run (hn : b.Named) (steps : List Step)
    (h : Told client (b.store.get? key) writes handed (b.mailOn client key)) :
    Told client ((Step.run steps b).store.get? key)
      (writes ++ (Step.along Step.accepted steps b).filter (·.key == key))
      (handed ++ (Step.along (Step.handed client) steps b).filter (·.key == key))
      ((Step.run steps b).mailOn client key) := by
  induction steps generalizing b writes handed with
  | nil => simpa using h
  | cons s steps ih =>
    have hrest := ih (hn.apply s) (told_apply hn s h)
    simpa only [Step.along_cons, Step.run_cons, List.filter_append, List.append_assoc] using hrest

/-- Of each variable, the mail that a client has been handed and that is still held for it carries
accepted writes in their order, and the last one held for a subscriber carries the latest write. -/
theorem mail_inOrder (config : Config) (startTime : Float) (ops : List (Float × Op))
    (client key : String) :
    let writes := (acceptedWrites ops (start config startTime)).filter (·.key == key)
    let handed := (deliveredAll client ops (start config startTime)).filter (·.key == key)
    let b := performAll ops (start config startTime)
    let held := (b.heldFor client).filter (·.key == key)
    InOrder writes (handed ++ held) ∧
      ∀ v, b.store.get? key = some v → v.isSubscribed client → ∀ m, held.getLast? = some m →
        CarriesLast m writes := by
  have hstart : Told client ((start config startTime).store.get? key) [] []
      ((start config startTime).mailOn client key) :=
    told_of_unwritten (unwritten_start config startTime key) (inOrder_nil [])
  have h := told_run (named_start config startTime) (scriptAll ops (start config startTime)) hstart
  rw [run_scriptAll, along_handed_scriptAll] at h
  exact ⟨h.inOrder, h.last⟩

end PubSub.Broker
