import PubSub.Broker.Variable
import PubSub.Proofs.Table

/-!
# Variables, operation by operation

What subscribing, writing and resetting do to a variable. A message *carries* a write
(`Message.Carries`) if it says of the variable what the write says; the variable itself carries its
last write (`Variable.carries_write`).
-/

namespace PubSub

/-- Whether a message tells a subscriber of a write: the same variable with the same data, from the
same source and time. Of the value and the payload only what the data type uses counts. -/
structure Message.Carries (m write : Message) : Prop where
  type : m.type = .notify
  key : m.key = write.key
  dataType : m.dataType = write.dataType
  value : m.dataType = .double → m.value = write.value
  payload : m.dataType = .string ∨ m.dataType = .binary → m.payload = write.payload
  time : m.time = write.time
  source : m.source = write.source
  sourceAux : m.sourceAux = write.sourceAux
  community : m.community = write.community

/-- A message with the community of the broker, if it names none. -/
def Message.stamped (m : Message) (community : String) : Message :=
  if m.community.isEmpty then { m with community } else m

namespace Message

variable (m : Message) (community : String)

@[simp] theorem stamped_key : (m.stamped community).key = m.key := by
  rw [stamped]; split <;> rfl

@[simp] theorem stamped_type : (m.stamped community).type = m.type := by
  rw [stamped]; split <;> rfl

@[simp] theorem stamped_dataType : (m.stamped community).dataType = m.dataType := by
  rw [stamped]; split <;> rfl

end Message

theorem Message.Carries.refl {m : Message} (h : m.type = .notify) : m.Carries m :=
  ⟨h, rfl, rfl, fun _ => rfl, fun _ => rfl, rfl, rfl, rfl, rfl⟩

namespace Variable

/-! ## Writes -/

theorem estimateFrequency_eq (v : Variable) (now : Float) :
    ∃ frequency estimateTime estimateWrites,
      v.estimateFrequency now = { v with frequency, estimateTime, estimateWrites } := by
  rw [estimateFrequency]
  split
  · exact ⟨v.frequency, v.estimateTime, v.estimateWrites, rfl⟩
  · exact ⟨_, _, _, rfl⟩

variable (v : Variable) (m : Message) (now : Float) (community : String)

@[simp] theorem write_name : (v.write m now community).name = v.name := by
  obtain ⟨_, _, _, h⟩ := estimateFrequency_eq _ now
  rw [write, h]

@[simp] theorem write_dataType : (v.write m now community).dataType = v.dataType := by
  obtain ⟨_, _, _, h⟩ := estimateFrequency_eq _ now
  rw [write, h]

@[simp] theorem write_writes : (v.write m now community).writes = v.writes + 1 := by
  obtain ⟨_, _, _, h⟩ := estimateFrequency_eq _ now
  rw [write, h]

@[simp] theorem write_subscriptions :
    (v.write m now community).subscriptions = v.subscriptions := by
  obtain ⟨_, _, _, h⟩ := estimateFrequency_eq _ now
  rw [write, h]

@[simp] theorem write_writer : (v.write m now community).writer = m.source := by
  obtain ⟨_, _, _, h⟩ := estimateFrequency_eq _ now
  rw [write, h]

@[simp] theorem write_writers :
    (v.write m now community).writers = v.writers.add m.source := by
  obtain ⟨_, _, _, h⟩ := estimateFrequency_eq _ now
  rw [write, h]

/-- A variable tells of its last write. -/
theorem carries_write (hname : v.name = m.key) (htype : v.dataType = m.dataType) :
    ((v.write m now community).toMessage .notify).Carries (m.stamped community) := by
  obtain ⟨_, _, _, h⟩ := estimateFrequency_eq _ now
  rw [write, h]
  by_cases hempty : m.community.isEmpty
  all_goals
    simp only [Message.stamped, hempty, if_true, if_false, Bool.false_eq_true]
    exact ⟨rfl, hname, htype, fun hdouble => if_pos hdouble, fun hbytes => if_pos hbytes, rfl, rfl,
      rfl, rfl⟩

/-! ## Subscriptions -/

theorem subscribe_subscriptions (client c : String) (period : Float) :
    (v.subscribe client period).subscriptions.get? c =
      if c = client then some { period := Bounds.raised period } else v.subscriptions.get? c :=
  Table.get?_insert ..

theorem unsubscribe_subscriptions (client c : String) :
    (v.unsubscribe client).subscriptions.get? c =
      if c = client then none else v.subscriptions.get? c :=
  Table.get?_erase ..

theorem isSubscribed_eq_true_iff {v : Variable} {client : String} :
    v.isSubscribed client = true ↔ ∃ s, v.subscriptions.get? client = some s :=
  Table.contains_eq_true_iff

theorem isSubscribed_eq_false_iff {v : Variable} {client : String} :
    v.isSubscribed client = false ↔ v.subscriptions.get? client = none :=
  Option.isSome_eq_false_iff.trans Option.isNone_iff_eq_none

theorem isSubscribed_of_unsubscribe {v : Variable} {client c : String}
    (h : (v.unsubscribe c).isSubscribed client) : v.isSubscribed client := by
  obtain ⟨s, hs⟩ := isSubscribed_eq_true_iff.1 h
  rw [unsubscribe_subscriptions] at hs
  split at hs
  · cases hs
  · exact isSubscribed_eq_true_iff.2 ⟨s, hs⟩

end Variable

end PubSub
