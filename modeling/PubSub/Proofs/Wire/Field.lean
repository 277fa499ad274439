import PubSub.Proofs.Double.Bits
import PubSub.Wire.Field

/-!
# What the readers accept

For each reader of a field, an `_eq_ok_iff` lemma: it takes `x` off the front of `bytes` exactly if
`bytes` starts with what the encoder writes for `x`, so no field has two forms. The one exception is
a double, whose bytes can be any bit pattern that reads as it (`takeDouble_eq_ok_iff`).

`bind_eq_ok_iff` and `guarded_eq_ok_iff` take a composed reader apart into these. `Blames` says the
same of failures: a composed reader only fails for causes that lie in the bytes.
-/

namespace PubSub

/-- Causes that lie in the bytes themselves, and not in a receiver's limit, in the opening exchange
or in what someone else has told. -/
def Malformed.InBytes : Malformed → Prop
  | .longPacket .. | .handshakeLength _ | .told _ => False
  | _ => True

namespace Wire

variable {α β : Type} {bytes rest : List UInt8}

/-! ## Composed readers -/

theorem pure_eq_ok_iff {x y : α} :
    (pure x : Reader α) bytes = .ok y rest ↔ x = y ∧ bytes = rest := by
  simp [pure, EStateM.pure]

theorem get_eq_ok_iff {x : List UInt8} :
    (get : Reader (List UInt8)) bytes = .ok x rest ↔ bytes = x ∧ bytes = rest := by
  simp [get, getThe, MonadStateOf.get, EStateM.get]

theorem set_eq_ok_iff {left : List UInt8} {x : Unit} :
    (set left : Reader Unit) bytes = .ok x rest ↔ left = rest := by
  simp [set, EStateM.set]

theorem throw_ne_ok {e : Malformed} {x : α} : (throw e : Reader α) bytes ≠ .ok x rest := by
  simp [throw, throwThe, MonadExceptOf.throw, EStateM.throw]

theorem bind_eq_ok_iff {r : Reader α} {f : α → Reader β} {y : β} :
    (r >>= f) bytes = .ok y rest ↔ ∃ x mid, r bytes = .ok x mid ∧ f x mid = .ok y rest := by
  simp only [bind, EStateM.bind]
  cases r bytes <;> simp

/-- A reader behind a check. -/
theorem guarded_eq_ok_iff {c : Prop} [Decidable c] {e : Malformed} {k : Unit → Reader α} {x : α} :
    (if c then throw e >>= k else k ()) bytes = .ok x rest ↔ ¬ c ∧ k () bytes = .ok x rest := by
  split
  · rename_i hc
    simp [hc, bind_eq_ok_iff, throw_ne_ok]
  · rename_i hc
    simp [hc]

/-- Readers that fail only for causes that lie in the bytes. -/
structure Blames (r : Reader α) : Prop where
  inBytes {bytes : List UInt8} {cause : Malformed} {rest : List UInt8} :
    r bytes = .error cause rest → cause.InBytes

theorem blames_pure (x : α) : Blames (pure x : Reader α) where
  inBytes h := by simp [pure, EStateM.pure] at h

theorem blames_get : Blames (get : Reader (List UInt8)) where
  inBytes h := by simp [get, getThe, MonadStateOf.get, EStateM.get] at h

theorem blames_set (left : List UInt8) : Blames (set left : Reader Unit) where
  inBytes h := by simp [set, EStateM.set] at h

theorem blames_throw {e : Malformed} (he : e.InBytes) : Blames (throw e : Reader α) where
  inBytes h := by
    cases h
    exact he

theorem blames_bind {r : Reader α} {f : α → Reader β} (hr : Blames r) (hf : ∀ x, Blames (f x)) :
    Blames (r >>= f) where
  inBytes h := by
    simp only [bind, EStateM.bind] at h
    split at h
    · exact (hf _).inBytes h
    · rename_i hfail
      cases h
      exact hr.inBytes hfail

theorem blames_guarded {c : Prop} [Decidable c] {e : Malformed} {k : Unit → Reader α}
    (he : c → e.InBytes) (hk : Blames (k ())) : Blames (if c then throw e >>= k else k ()) := by
  split
  · rename_i hc
    exact blames_bind (blames_throw (he hc)) fun _ => hk
  · exact hk

/-! ## Numbers in bytes -/

theorem ofLittleEndian_lt (bytes : List UInt8) :
    ofLittleEndian bytes < Nat.pow 256 bytes.length := by
  induction bytes with
  | nil => decide
  | cons b bytes ih =>
    have hb := b.toNat_lt
    show b.toNat + 256 * ofLittleEndian bytes < Nat.pow 256 bytes.length * 256
    omega

theorem littleEndian_ofLittleEndian (bytes : List UInt8) :
    littleEndian bytes.length (ofLittleEndian bytes) = bytes := by
  induction bytes with
  | nil => rfl
  | cons b bytes ih =>
    have hb := b.toNat_lt
    have hlow : UInt8.ofNat (b.toNat + 256 * ofLittleEndian bytes) = b := by
      refine UInt8.toNat_inj.1 ?_
      rw [UInt8.toNat_ofNat']
      omega
    have hhigh : (b.toNat + 256 * ofLittleEndian bytes) / 256 = ofLittleEndian bytes := by omega
    rw [ofLittleEndian, List.length_cons, littleEndian, hlow, hhigh, ih]

/-- A double by any of its bit patterns. -/
def putBits (a : UInt64) : List UInt8 := littleEndian 8 a.toNat

theorem putDouble_eq (x : Float) : putDouble x = putBits x.toBits := rfl

@[simp] theorem length_putBits (a : UInt64) : (putBits a).length = 8 := by simp [putBits]

/-! ## Fields of fixed width -/

theorem takeItem_eq_ok_iff {item : Item} {field : List UInt8} :
    takeItem item bytes = .ok field rest ↔ field.length = item.width ∧ bytes = field ++ rest := by
  constructor
  · intro h
    simp only [takeItem] at h
    split at h
    · cases h
      exact ⟨‹_›, (List.take_append_drop ..).symm⟩
    · cases h
  · rintro ⟨hwidth, rfl⟩
    exact takeItem_append hwidth rest

theorem takeByte_eq_ok_iff {b : UInt8} : takeByte bytes = .ok b rest ↔ bytes = b :: rest := by
  constructor
  · intro h
    simp only [takeByte, bind_eq_ok_iff, takeItem_eq_ok_iff, pure_eq_ok_iff] at h
    obtain ⟨field, mid, ⟨hwidth, rfl⟩, rfl, rfl⟩ := h
    obtain ⟨c, rfl⟩ := List.length_eq_one_iff.1 hwidth
    rfl
  · rintro rfl
    exact takeByte_cons b rest

theorem takeInt_eq_ok_iff {n : Int32} : takeInt bytes = .ok n rest ↔ bytes = putInt n ++ rest := by
  constructor
  · intro h
    simp only [takeInt, bind_eq_ok_iff, takeItem_eq_ok_iff, pure_eq_ok_iff] at h
    obtain ⟨field, mid, ⟨hwidth, rfl⟩, rfl, rfl⟩ := h
    have hlt : ofLittleEndian field < Nat.pow 256 4 := by
      have h := ofLittleEndian_lt field
      rwa [show field.length = 4 from hwidth] at h
    have hself := littleEndian_ofLittleEndian field
    rw [show field.length = 4 from hwidth] at hself
    show field ++ mid = littleEndian 4 (UInt32.ofNat (ofLittleEndian field)).toNat ++ mid
    rw [UInt32.toNat_ofNat_of_lt' hlt, hself]
  · rintro rfl
    exact takeInt_append n rest

theorem takeDouble_eq_ok_iff {x : Float} :
    takeDouble bytes = .ok x rest ↔ ∃ a, Double.Same a x.toBits ∧ bytes = putBits a ++ rest := by
  simp only [takeDouble, bind_eq_ok_iff, takeItem_eq_ok_iff, pure_eq_ok_iff]
  constructor
  · rintro ⟨field, mid, ⟨hwidth, rfl⟩, hx, rfl⟩
    have hlt : ofLittleEndian field < Nat.pow 256 8 := by
      have h := ofLittleEndian_lt field
      rwa [show field.length = 8 from hwidth] at h
    have hself := littleEndian_ofLittleEndian field
    rw [show field.length = 8 from hwidth] at hself
    refine ⟨_, Double.ofBits_eq_iff.1 hx, ?_⟩
    rw [putBits, UInt64.toNat_ofNat_of_lt' hlt, hself]
  · rintro ⟨a, ha, rfl⟩
    refine ⟨putBits a, rest, ⟨length_putBits a, rfl⟩, Double.ofBits_eq_iff.2 ?_, rfl⟩
    have hlt : a.toNat < Nat.pow 256 8 := a.toNat_lt
    rwa [putBits, ofLittleEndian_littleEndian, Nat.mod_eq_of_lt hlt, UInt64.ofNat_toNat]

theorem blames_takeItem (item : Item) : Blames (takeItem item) where
  inBytes h := by
    simp only [takeItem] at h
    split at h <;> cases h
    trivial

theorem blames_takeByte : Blames takeByte := blames_bind (blames_takeItem _) fun _ => blames_pure _

theorem blames_takeInt : Blames takeInt := blames_bind (blames_takeItem _) fun _ => blames_pure _

theorem blames_takeDouble : Blames takeDouble :=
  blames_bind (blames_takeItem _) fun _ => blames_pure _

/-! ## Fields behind their length -/

/-- A length that an `i32` can state. -/
def Stated (n : Nat) : Prop := n < Nat.pow 2 31

theorem toInt_ofNat_of_stated {n : Nat} (h : Stated n) : (Int32.ofNat n).toInt = n :=
  Int32.toInt_ofNat_of_lt h

/-- A length that is not negative is the one that its number of bytes states. -/
theorem ofNat_toInt {n : Int32} (h : 0 ≤ n.toInt) :
    Int32.ofNat n.toInt.toNat = n ∧ Stated n.toInt.toNat := by
  have hlt := n.toInt_lt
  have hs : Stated n.toInt.toNat := by
    show n.toInt.toNat < 2147483648
    omega
  refine ⟨Int32.toInt_inj.1 ?_, hs⟩
  rw [toInt_ofNat_of_stated hs]
  omega

theorem takeBytes_eq_ok_iff {payload : Array UInt8} :
    takeBytes bytes = .ok payload rest ↔
      Stated payload.size ∧ bytes = putBytes payload ++ rest := by
  simp only [takeBytes, bind_eq_ok_iff, guarded_eq_ok_iff, takeInt_eq_ok_iff, get_eq_ok_iff,
    set_eq_ok_iff, pure_eq_ok_iff]
  constructor
  · rintro ⟨n, mid, rfl, hneg, _, _, ⟨rfl, rfl⟩, hlong, _, _, rfl, rfl, rfl⟩
    have hn : 0 ≤ n.toInt := by
      rw [Int32.lt_iff_toInt_lt] at hneg
      exact Int.not_lt.1 hneg
    obtain ⟨hself, hstated⟩ := ofNat_toInt hn
    have hlen : (mid.take n.toInt.toNat).length = n.toInt.toNat := by
      rw [List.length_take] at hlong ⊢
      omega
    refine ⟨by rw [List.size_toArray, hlen]; exact hstated, ?_⟩
    rw [putBytes, putLength, List.size_toArray, hlen, hself, List.append_assoc,
      List.take_append_drop]
  · rintro ⟨hstated, rfl⟩
    have hself := toInt_ofNat_of_stated hstated
    refine ⟨_, payload.toList ++ rest, by rw [putBytes, putLength, List.append_assoc], ?_, _, _,
      ⟨rfl, rfl⟩, ?_, (), rest, ?_, ?_, rfl⟩
    · rw [Int32.lt_iff_toInt_lt, hself]
      exact Int.not_lt.2 (Int.natCast_nonneg _)
    all_goals rw [hself]; simp

theorem decode_eq_ok_iff {raw : Array UInt8} {s : String} :
    Utf8.decode raw = .ok s ↔ raw = s.toUTF8.data := by
  unfold Utf8.decode String.fromUTF8?
  by_cases hvalid : (ByteArray.mk raw).IsValidUTF8
  · rw [dif_pos hvalid]
    constructor
    · rintro ⟨⟩
      rfl
    · rintro rfl
      rfl
  · rw [dif_neg hvalid]
    constructor
    · rintro ⟨⟩
    · rintro rfl
      exact absurd s.isValidUTF8 hvalid

theorem takeText_eq_ok_iff {s : String} :
    takeText bytes = .ok s rest ↔ Stated s.utf8ByteSize ∧ bytes = putText s ++ rest := by
  simp only [takeText, bind_eq_ok_iff, takeBytes_eq_ok_iff]
  constructor
  · rintro ⟨raw, mid, ⟨hstated, rfl⟩, h⟩
    cases hs : Utf8.decode raw with
    | error fault => simp [hs, throw_ne_ok] at h
    | ok t =>
      simp only [hs, pure_eq_ok_iff] at h
      obtain ⟨rfl, rfl⟩ := h
      obtain rfl := decode_eq_ok_iff.1 hs
      exact ⟨hstated, rfl⟩
  · rintro ⟨hstated, rfl⟩
    refine ⟨s.toUTF8.data, rest, ⟨hstated, rfl⟩, ?_⟩
    simp only [decode_eq_ok_iff.2 rfl, pure_eq_ok_iff, and_self]

theorem blames_takeBytes : Blames takeBytes :=
  blames_bind blames_takeInt fun _ => blames_guarded (fun _ => trivial) <|
    blames_bind blames_get fun _ => blames_guarded (fun _ => trivial) <|
      blames_bind (blames_set _) fun _ => blames_pure _

theorem blames_takeText : Blames takeText :=
  blames_bind blames_takeBytes fun raw => by
    cases Utf8.decode raw with
    | ok s => exact blames_pure s
    | error fault => exact blames_throw trivial

end Wire

end PubSub
