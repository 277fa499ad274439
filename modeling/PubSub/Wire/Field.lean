import PubSub.Wire.Malformed

/-!
# Fields on the wire

Everything on the wire is fixed-width and little-endian, and a field of varying length has its
length as an `i32` before it. Each kind of field has an encoder `put…` and a `Reader` that takes the
field off the front of the bytes that are left. A reader that fails leaves what it has not consumed:
an item that is cut short consumes nothing, a field whose length is refused consumes its length, and
text that is not UTF-8 is consumed whole.

The `…_append` lemmas say that each reader takes back what the encoder wrote and leaves the rest.
-/

namespace PubSub.Wire

/-- The `width` low bytes of `n`, lowest first. -/
def littleEndian : (width n : Nat) → List UInt8
  | 0, _ => []
  | width + 1, n => UInt8.ofNat n :: littleEndian width (n / 256)

/-- The number whose bytes these are, lowest first. -/
def ofLittleEndian : List UInt8 → Nat
  | [] => 0
  | b :: bs => b.toNat + 256 * ofLittleEndian bs

@[simp] theorem length_littleEndian (width n : Nat) : (littleEndian width n).length = width := by
  induction width generalizing n with
  | zero => rfl
  | succ width ih => simp [littleEndian, ih]

theorem ofLittleEndian_littleEndian (width n : Nat) :
    ofLittleEndian (littleEndian width n) = n % Nat.pow 256 width := by
  induction width generalizing n with
  | zero => simp [littleEndian, ofLittleEndian, Nat.mod_one]
  | succ width ih =>
    have hsplit := Nat.mod_mul (a := 256) (b := 256 ^ width) (x := n)
    rw [littleEndian, ofLittleEndian, ih, UInt8.toNat_ofNat']
    exact hsplit.symm.trans (congrArg (n % ·) Nat.pow_succ'.symm)

/-! ## Encoders -/

/-- A 32-bit integer. -/
def putInt (n : Int32) : List UInt8 := littleEndian 4 n.toUInt32.toNat

/-- A floating-point number, by its bits. -/
def putDouble (x : Float) : List UInt8 := littleEndian 8 x.toBits.toNat

/-- A number of bytes, as a 32-bit integer. -/
def putLength (n : Nat) : List UInt8 := putInt (Int32.ofNat n)

/-- Bytes behind their number. -/
def putBytes (bytes : Array UInt8) : List UInt8 := putLength bytes.size ++ bytes.toList

/-- Text as the bytes of its UTF-8 form. -/
def putText (s : String) : List UInt8 := putBytes s.toUTF8.data

@[simp] theorem length_putInt (n : Int32) : (putInt n).length = 4 := by simp [putInt]

@[simp] theorem length_putDouble (x : Float) : (putDouble x).length = 8 := by simp [putDouble]

@[simp] theorem length_putBytes (bytes : Array UInt8) :
    (putBytes bytes).length = 4 + bytes.size := by
  simp [putBytes, putLength]

@[simp] theorem length_putText (s : String) : (putText s).length = 4 + s.utf8ByteSize := by
  simp [putText]

/-! ## Readers -/

/-- Takes a value off the bytes that are left, or says why it cannot. -/
abbrev Reader (α : Type) := EStateM Malformed (List UInt8) α

/-- The next `item.width` bytes. -/
def takeItem (item : Item) : Reader (List UInt8) := fun bytes =>
  let taken := bytes.take item.width
  if taken.length = item.width then .ok taken (bytes.drop item.width)
  else .error (.underflow item bytes.length) bytes

/-- A byte. -/
def takeByte : Reader UInt8 := do
  return ((← takeItem .byte).headD 0)

/-- A 32-bit integer. -/
def takeInt : Reader Int32 := do
  return (UInt32.ofNat (ofLittleEndian (← takeItem .int))).toInt32

/-- A floating-point number. -/
def takeDouble : Reader Float := do
  return Float.ofBits (UInt64.ofNat (ofLittleEndian (← takeItem .double)))

/-- Bytes behind their number. -/
def takeBytes : Reader (Array UInt8) := do
  let length ← takeInt
  if length < 0 then throw (.negativeLength length.toInt)
  let length := length.toInt.toNat
  let bytes ← get
  let taken := bytes.take length
  if taken.length < length then throw (.fieldOverrun length bytes.length)
  set (bytes.drop length)
  return taken.toArray

/-- Text. -/
def takeText : Reader String := do
  match Utf8.decode (← takeBytes) with
  | .ok s => return s
  | .error fault => throw (.notUtf8 fault)

/-! ## Reading what was written -/

theorem takeItem_append {item : Item} {field : List UInt8} (h : field.length = item.width)
    (rest : List UInt8) : takeItem item (field ++ rest) = .ok field rest := by
  simp [takeItem, ← h]

theorem takeByte_cons (b : UInt8) (rest : List UInt8) : takeByte (b :: rest) = .ok b rest := by
  have h := @takeItem_append .byte [b] rfl rest
  simp only [List.singleton_append] at h
  simp [takeByte, bind, EStateM.bind, h, pure, EStateM.pure]

theorem takeInt_append (n : Int32) (rest : List UInt8) :
    takeInt (putInt n ++ rest) = .ok n rest := by
  have h := @takeItem_append .int _ (length_putInt n) rest
  have hlt : n.toUInt32.toNat < Nat.pow 256 4 := n.toUInt32.toNat_lt
  have hn : UInt32.ofNat (ofLittleEndian (putInt n)) = n.toUInt32 := by
    rw [putInt, ofLittleEndian_littleEndian, Nat.mod_eq_of_lt hlt, UInt32.ofNat_toNat]
  simp [takeInt, bind, EStateM.bind, h, pure, EStateM.pure, hn]

end PubSub.Wire
