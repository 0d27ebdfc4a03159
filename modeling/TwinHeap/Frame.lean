import TwinHeap.Address
import TwinHeap.Overflow

/-!
The memory of one call frame.

A frame is a run of cleared 64-bit words that is long enough to hold `len` bytes at any alignment: the
usable region starts at the first aligned address inside the words. Sixteen words live in the frame
itself; a longer run is spilled to the heap.
-/

namespace TwinHeap

/-- The bytes of a word. -/
def wordSize : Nat := 8

/-- The words a frame keeps in place. -/
def inlineWords : Nat := 16

/-- The largest region that can be allocated, in bytes. -/
def allocationLimit : Nat := 0x7FFFFFFFFFFFFFFF

/-- Why a frame cannot be made. -/
inductive FrameError
  | alignment
  | overflow (cause : Overflow)
deriving DecidableEq, Repr

/-- The size of a frame's memory. -/
structure Frame where
  len : Nat
  align : Nat
  /-- How many words back the frame. -/
  words : Nat
deriving DecidableEq, Repr

/-- Whether `n` is a power of two: it has exactly one bit. -/
def isPowerOfTwo (n : Nat) : Bool :=
  n != 0 && n &&& (n - 1) == 0

namespace Frame

/-- The bytes kept in reserve for moving the region to its alignment. -/
def padding (align : Nat) : Nat := align - wordSize

/-- A cleared frame of `len` bytes at the alignment `align`, zero counting as one. -/
def make (len align : Nat) : Except FrameError Frame :=
  let align := max align 1
  if isPowerOfTwo align then
    match checkedAdd len (padding align) >>= fun n => checkedAdd n wordSize with
    | .error e => .error (.overflow e)
    | .ok n =>
      let words := (n - 1) / wordSize
      if words * wordSize ≤ allocationLimit then .ok ⟨len, align, words⟩
      else .error (.overflow .capacity)
  else .error .alignment

def isEmpty (f : Frame) : Bool := f.len == 0

/-- Whether the words outgrow the frame itself. -/
def spilled (f : Frame) : Bool := inlineWords < f.words

/-- Where the usable region starts if the words start at `base`: the first aligned address. The sum
with the alignment has to be an address, too. -/
def start (f : Frame) (base : Nat) : Except Overflow Nat := do
  let above ← checkedAdd base f.align
  let top := above - 1
  return top - (top &&& (f.align - 1))

/-- The octets of the words of a new frame. -/
def cleared (f : Frame) : List Octet :=
  (List.replicate f.words 0).flatMap fun w => (littleEndian wordSize w).map .value

/-- The octets of the usable region of a new frame that starts `shift` bytes into the words. -/
def region (f : Frame) (shift : Nat) : List Octet := (f.cleared.drop shift).take f.len

end Frame

end TwinHeap
