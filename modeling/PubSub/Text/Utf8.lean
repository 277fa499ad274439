/-!
# UTF-8 text from untrusted bytes

Two readings of a byte string as text. `Utf8.decode` is strict: it accepts exactly the bytes of some
text, and otherwise says where the first fault is (`Utf8.Fault`). `Utf8.decodeLossy` accepts every
byte string and puts one replacement character in the place of each maximal faulty part.

The classification of lead and continuation bytes follows the table of well-formed byte sequences of
the Unicode standard, so surrogates and overlong forms are faulty at their second byte.
-/

namespace PubSub.Utf8

/-- What a lead byte promises: the number of continuation bytes, and the range of the first one. -/
structure Lead where
  more : Nat
  low : UInt8
  high : UInt8

/-- The promise of a lead byte; `none` for a byte that starts no character. -/
def Lead.of? (b : UInt8) : Option Lead :=
  if b < 0x80 then some ⟨0, 0x80, 0xBF⟩
  else if b < 0xC2 then none
  else if b < 0xE0 then some ⟨1, 0x80, 0xBF⟩
  else if b = 0xE0 then some ⟨2, 0xA0, 0xBF⟩
  else if b = 0xED then some ⟨2, 0x80, 0x9F⟩
  else if b < 0xF0 then some ⟨2, 0x80, 0xBF⟩
  else if b = 0xF0 then some ⟨3, 0x90, 0xBF⟩
  else if b < 0xF4 then some ⟨3, 0x80, 0xBF⟩
  else if b = 0xF4 then some ⟨3, 0x80, 0x8F⟩
  else none

/-- What stands at the front of a byte string. -/
inductive Front where
  /-- A whole character with this many continuation bytes. -/
  | scalar (more : Nat)
  /-- A faulty part: the first byte and this many continuation bytes that fit it. -/
  | faulty (more : Nat)
  /-- The byte string ends inside a character. -/
  | cut
deriving DecidableEq

/-- Follows `need` promised continuation bytes, `taken` of them having been seen. -/
def follow : (need : Nat) → (low high : UInt8) → (taken : Nat) → List UInt8 → Front
  | 0, _, _, taken, _ => .scalar taken
  | _ + 1, _, _, _, [] => .cut
  | need + 1, low, high, taken, b :: bs =>
    if low ≤ b ∧ b ≤ high then follow need 0x80 0xBF (taken + 1) bs else .faulty taken

/-- Classifies the front of `b :: bs`. -/
def front (b : UInt8) (bs : List UInt8) : Front :=
  match Lead.of? b with
  | none => .faulty 0
  | some lead => follow lead.more lead.low lead.high 0 bs

/-- The character whose lead byte is `b` and whose continuation bytes are `more`. -/
def scalar (b : UInt8) (more : List UInt8) : Char :=
  let high := match more.length with
    | 0 => b.toNat
    | 1 => b.toNat % 32
    | 2 => b.toNat % 16
    | _ => b.toNat % 8
  Char.ofNat (more.foldl (fun n c => 64 * n + c.toNat % 64) high)

/-- The mark that stands for a faulty part. -/
def replacement : Char := '\ufffd'

/-- All characters of a byte string, with one mark for each maximal faulty part. -/
def repair : List UInt8 → List Char
  | [] => []
  | b :: bs =>
    match front b bs with
    | .scalar n => scalar b (bs.take n) :: repair (bs.drop n)
    | .faulty n => replacement :: repair (bs.drop n)
    | .cut => [replacement]
termination_by bytes => bytes.length
decreasing_by all_goals simp only [List.length_drop, List.length_cons]; omega

/-- The first fault of a byte string: how many bytes before it are sound, and how many bytes the
faulty part has; `none` if the byte string only ends too early. -/
structure Fault where
  validUpTo : Nat
  length : Option Nat
deriving DecidableEq

/-- The first fault, `sound` bytes having been passed; at the end of sound bytes it is a missing
character. -/
def firstFault (sound : Nat) : List UInt8 → Fault
  | [] => ⟨sound, none⟩
  | b :: bs =>
    match front b bs with
    | .scalar n => firstFault (sound + n + 1) (bs.drop n)
    | .faulty n => ⟨sound, some (n + 1)⟩
    | .cut => ⟨sound, none⟩
termination_by bytes => bytes.length
decreasing_by simp only [List.length_drop, List.length_cons]; omega

/-- The wording of a fault. -/
def Fault.message (fault : Fault) : String :=
  match fault.length with
  | some n => s!"invalid utf-8 sequence of {n} bytes from index {fault.validUpTo}"
  | none => s!"incomplete utf-8 byte sequence from index {fault.validUpTo}"

/-- The text with exactly these bytes. -/
def decode (bytes : Array UInt8) : Except Fault String :=
  match String.fromUTF8? ⟨bytes⟩ with
  | some s => .ok s
  | none => .error (firstFault 0 bytes.toList)

/-- The text with these bytes, its faulty parts replaced by marks. -/
def decodeLossy (bytes : Array UInt8) : String :=
  match String.fromUTF8? ⟨bytes⟩ with
  | some s => s
  | none => String.ofList (repair bytes.toList)

end PubSub.Utf8
