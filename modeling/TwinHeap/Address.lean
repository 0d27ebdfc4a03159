/-!
Addresses, and how one lies in memory.

An address is a word. Words that nothing of this library lives at are plain numbers, zero being
the null address; every other address is known by what lives there. In memory an address takes
eight octets: a number in little-endian order, a known address as eight fragments that only make
sense together. `Address.ofOctets_octets` says that an address read back is the address written.
-/

namespace TwinHeap

/-- What a word can refer to. -/
inductive Address
  /-- A number at which nothing known lives; zero is the null address. -/
  | raw (value : Nat)
  /-- An object of the host. -/
  | hostObject (index : Nat)
  /-- A class of the host. -/
  | hostClass (index : Nat)
  /-- An object of the foreign heap. -/
  | foreign (index : Nat)
  /-- The payload of a boxed value of the foreign heap. -/
  | payload (index : Nat)
  /-- A place in a cell of storage, so many octets behind its start. -/
  | cell (index offset : Nat)
  /-- A property descriptor handed to a foreign helper. -/
  | descriptor
deriving DecidableEq, Repr

/-- One octet of memory. -/
inductive Octet
  | value (byte : UInt8)
  /-- The octet at `position` of the word that holds `address`. -/
  | fragment (address : Address) (position : Nat)
deriving DecidableEq, Repr

namespace Octet

/-- A cleared octet. -/
def zero : Octet := .value 0

/-- The number in an octet; a fragment of an address has none, and counts as zero. -/
def byte : Octet → UInt8
  | value b => b
  | fragment _ _ => 0

/-- Whether the octet is set at all; every fragment of a known address is. -/
def isSet : Octet → Bool
  | value b => b != 0
  | fragment _ _ => true

end Octet

/-- How many numbers `n` octets can hold. -/
def octetRange : Nat → Nat
  | 0 => 1
  | n + 1 => 256 * octetRange n

/-- The `n` low octets of a number, the lowest first. -/
def littleEndian : Nat → Nat → List UInt8
  | 0, _ => []
  | n + 1, v => UInt8.ofNat v :: littleEndian n (v / 256)

/-- The number whose octets, lowest first, are given. -/
def ofLittleEndian : List UInt8 → Nat
  | [] => 0
  | b :: bs => b.toNat + 256 * ofLittleEndian bs

@[simp] theorem length_littleEndian (n v : Nat) : (littleEndian n v).length = n := by
  induction n generalizing v with
  | zero => rfl
  | succ n ih => simp [littleEndian, ih]

/-- Writing the octets of a number and reading them keeps what fits. -/
theorem ofLittleEndian_littleEndian (n v : Nat) :
    ofLittleEndian (littleEndian n v) = v % octetRange n := by
  induction n generalizing v with
  | zero => simp [littleEndian, ofLittleEndian, octetRange, Nat.mod_one]
  | succ n ih =>
    have hb : (UInt8.ofNat v).toNat = v % 256 := UInt8.toNat_ofNat'
    rw [littleEndian, ofLittleEndian, ih, hb, octetRange, Nat.mod_mul]

namespace Address

def null : Address := .raw 0

/-- The start of a cell. -/
def ofCell (index : Nat) : Address := .cell index 0

/-- The address unless it is null. -/
def nonNull (a : Address) : Option Address :=
  if a = null then none else some a

/-- The octets of a word that holds the address. -/
def octets : Address → List Octet
  | raw v => (littleEndian 8 v).map .value
  | a => (List.range 8).map (.fragment a)

/-- The address in a word; octets that never were one address are the null address. -/
def ofOctets (os : List Octet) : Address :=
  match os with
  | .fragment a _ :: _ => if os.take 8 = (List.range 8).map (.fragment a) then a else null
  | _ => raw (ofLittleEndian ((os.take 8).map Octet.byte))

/-- The hexadecimal digits of an address that has at most four; longer ones are not shown. -/
def hexText : Address → String
  | raw v =>
    if v < 65536 then "0x" ++ String.ofList (Nat.toDigits 16 v) else "0x?"
  | _ => "0x?"

@[simp] theorem length_octets (a : Address) : a.octets.length = 8 := by
  cases a <;> simp [octets]

/-- An address read back from where it was written is that address. -/
theorem ofOctets_octets (a : Address) (rest : List Octet)
    (h : ∀ v, a = raw v → v < octetRange 8) : ofOctets (a.octets ++ rest) = a := by
  cases a with
  | raw v =>
    have hv : v % octetRange 8 = v := Nat.mod_eq_of_lt (h v rfl)
    have hm : ((littleEndian 8 v).map Octet.value).map Octet.byte = littleEndian 8 v := by
      simp [Octet.byte, Function.comp_def]
    have ht : (((littleEndian 8 v).map Octet.value ++ rest).take 8).map Octet.byte =
        littleEndian 8 v := by
      rw [List.take_append_of_le_length (by simp), List.take_of_length_le (by simp), hm]
    have hn := ofLittleEndian_littleEndian 8 v
    rw [hv] at hn
    rw [← hn] at ht ⊢
    simp only [octets, ofOctets]
    split
    · rename_i heq
      simp [littleEndian] at heq
    · rw [hn] at ht ⊢
      rw [ht, hn]
  | hostObject i => simp [octets, ofOctets, List.range, List.range.loop]
  | hostClass i => simp [octets, ofOctets, List.range, List.range.loop]
  | foreign i => simp [octets, ofOctets, List.range, List.range.loop]
  | payload i => simp [octets, ofOctets, List.range, List.range.loop]
  | cell i j => simp [octets, ofOctets, List.range, List.range.loop]
  | descriptor => simp [octets, ofOctets, List.range, List.range.loop]

end Address

end TwinHeap
