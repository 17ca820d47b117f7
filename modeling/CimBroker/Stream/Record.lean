import CimBroker.Stream.Bytes
import CimBroker.Stream.Error

/-!
# Compact records

A class or an instance is stored as one compact record: a byte buffer with
a fixed region and a heap.

```text
0   total size      u64   bytes of the buffer
8   free bytes      u64   unused tail; in use = total - free
16  reference count u32
20  kind            u32   1 class, 2 instance
24  reference slots u32   number of token slots
28  field count     u32   number of property slots
32  string slots    (2 + field count) x (offset u32, length u32)
    token slots     reference slots x u64
    heap            string bytes, appended, then the free tail of zeros
```

A string slot of length `0xFFFFFFFF` is null. Setting a string appends its
bytes to the heap, using the free tail first and growing the buffer by at
least 64 zero bytes when the tail is too short; the old bytes stay where
they were. Slot offsets and lengths are 32-bit, so a string of `0xFFFFFFFF`
bytes or more, a buffer that would grow past `0xFFFFFFFF` bytes, and bytes
that would start past that offset are refused.

`Record` keeps the parts of that buffer as fields: the kind, the reference
count, the slots, the tokens, the heap bytes in use and the size of the free
tail. Every byte of the buffer is a function of them (`Record.bytes`), since
the free tail is always zeros and the header fields are sizes of the parts.
-/

namespace CimBroker.Stream

/-- The kind field's value. -/
def RecordKind.code : RecordKind → Nat
  | .classRecord => 1
  | .instanceRecord => 2

/-- The kind a kind field names, if any. -/
def RecordKind.ofCode? : Nat → Option RecordKind
  | 1 => some .classRecord
  | 2 => some .instanceRecord
  | _ => none

/-- Largest value of a 32-bit field. -/
def maxU32 : Nat := 0xFFFFFFFF

/-- Largest value of a 64-bit field, and of a size in memory. -/
def maxU64 : Nat := 0xFFFFFFFFFFFFFFFF

/-- Length value that marks a null string slot. -/
def nullLength : Nat := maxU32

/-- Bytes of the fixed header. -/
def headerSize : Nat := 32

/-- Bytes of one slot, string or token. -/
def slotSize : Nat := 8

/-- Spare bytes that a growing heap takes at least. -/
def heapGrowth : Nat := 64

/-- A string slot: where its bytes lie in the buffer. -/
structure Slot where
  offset : Nat
  length : Nat
deriving DecidableEq, Repr

/-- The slot of a null string. -/
def Slot.null : Slot := ⟨0, nullLength⟩

/-- Whether the slot holds no string. -/
def Slot.isNull (s : Slot) : Bool := s.length == nullLength

/-- A compact record, as the parts of its buffer. -/
structure Record where
  kind : RecordKind
  refCount : Nat
  /-- The string slots: two names, then one per field. -/
  slots : List Slot
  /-- The reference tokens; zero is an empty slot. -/
  tokens : List Nat
  /-- The heap bytes in use. -/
  heap : List UInt8
  /-- Size of the free tail of zeros. -/
  free : Nat
deriving DecidableEq, Repr

namespace Record

/-- Bytes of header, string slots and token slots. -/
def fixedSize (r : Record) : Nat := headerSize + slotSize * (r.slots.length + r.tokens.length)

/-- Bytes in use: the fixed region and the heap. -/
def inUse (r : Record) : Nat := r.fixedSize + r.heap.length

/-- Bytes of the whole buffer. -/
def totalSize (r : Record) : Nat := r.inUse + r.free

/-- Number of property slots. -/
def fieldCount (r : Record) : Nat := r.slots.length - 2

/-- Number of reference slots. -/
def extRefCount (r : Record) : Nat := r.tokens.length

/-- The fixed region as bytes. -/
def fixedBytes (r : Record) : List UInt8 :=
  le 8 r.totalSize ++ le 8 r.free ++ le 4 r.refCount ++ le 4 r.kind.code ++
    le 4 r.tokens.length ++ le 4 r.fieldCount ++
    r.slots.flatMap (fun s => le 4 s.offset ++ le 4 s.length) ++
    r.tokens.flatMap (le 8)

/-- The bytes in use, which are what a stream carries. -/
def inUseBytes (r : Record) : List UInt8 := r.fixedBytes ++ r.heap

/-- The whole buffer. -/
def bytes (r : Record) : List UInt8 := r.inUseBytes ++ List.replicate r.free 0

/-- A record with every slot null, no heap and no free tail. -/
def new (kind : RecordKind) (fieldCount extRefCount : Nat) : Record :=
  ⟨kind, 0, List.replicate (2 + fieldCount) Slot.null, List.replicate extRefCount 0, [], 0⟩

/-- The bytes of string slot `slot`: none when it is null, past the slots,
or reaching past the buffer. -/
def string (r : Record) (slot : Nat) : Option (List UInt8) :=
  match r.slots[slot]? with
  | none => none
  | some s =>
    if s.isNull then none
    else if s.offset + s.length ≤ r.totalSize then some ((r.bytes.drop s.offset).take s.length)
    else none

/-- The text of string slot `slot`, when its bytes are UTF-8. -/
def text (r : Record) (slot : Nat) : Option String :=
  (r.string slot).bind fun bs => String.fromUTF8? ⟨bs.toArray⟩

/-- The record with a free tail of at least `n` bytes: unchanged when the
tail suffices, else grown by the shortfall, and by at least `heapGrowth`;
refused when the buffer would pass `maxU32` bytes. -/
def reserve (r : Record) (n : Nat) : Except StreamError Record :=
  if r.free < n then
    let grown := r.totalSize + max (n - r.free) heapGrowth
    if grown > maxU32 then .error (.recordTooLarge grown)
    else .ok { r with free := r.free + max (n - r.free) heapGrowth }
  else .ok r

/-- Appends `v` to the heap; the offset of its first byte comes back. -/
def appendHeap (r : Record) (v : List UInt8) : Except StreamError (Nat × Record) := do
  let r ← r.reserve v.length
  if r.inUse > maxU32 then throw (.recordTooLarge r.inUse)
  return (r.inUse, { r with heap := r.heap ++ v, free := r.free - v.length })

/-- Sets string slot `slot` to `v`, or to null. -/
def setString (r : Record) (slot : Nat) (v : Option (List UInt8)) : Except StreamError Record :=
  if slot < r.slots.length then
    match v with
    | none => .ok { r with slots := r.slots.set slot Slot.null }
    | some bytes =>
      if nullLength ≤ bytes.length then .error (.recordTooLarge bytes.length)
      else do
        let (offset, r) ← r.appendHeap bytes
        return { r with slots := r.slots.set slot ⟨offset, bytes.length⟩ }
  else .error (.invalidSlot slot r.slots.length)

/-- The token in reference slot `slot`; zero past the slots. -/
def token (r : Record) (slot : Nat) : Nat := r.tokens.getD slot 0

/-- Sets reference slot `slot` to `t`. -/
def setToken (r : Record) (slot : Nat) (t : Nat) : Except StreamError Record :=
  if slot < r.tokens.length then .ok { r with tokens := r.tokens.set slot t }
  else .error (.invalidSlot slot r.tokens.length)

/-! ## Reading a record from a stream -/

/-- The little-endian word of `width` bytes at `at_` in `bs`, which holds it. -/
def wordAt (bs : List UInt8) (at_ width : Nat) (_ : at_ + width ≤ bs.length) : Nat :=
  readLE ((bs.drop at_).take width)

/-- `n` slots read from `bs`, eight bytes each; `bs` holds them all. -/
def readSlots : (n : Nat) → (bs : List UInt8) → n * slotSize ≤ bs.length → List Slot
  | 0, _, _ => []
  | n + 1, bs, h =>
    ⟨readLE (bs.take 4), readLE ((bs.drop 4).take 4)⟩ ::
      readSlots n (bs.drop 8) (by simp only [slotSize, List.length_drop] at h ⊢; omega)

/-- `n` tokens read from `bs`, eight bytes each; `bs` holds them all. -/
def readTokens : (n : Nat) → (bs : List UInt8) → n * slotSize ≤ bs.length → List Nat
  | 0, _, _ => []
  | n + 1, bs, h =>
    readLE (bs.take 8) :: readTokens n (bs.drop 8) (by simp only [slotSize, List.length_drop] at h ⊢; omega)

/-- The first slot, with its position, that is not null and lies outside
`[fixed, inUse)`. -/
def firstOutside (fixed inUse : Nat) (slots : List Slot) : Option (Nat × Slot) :=
  (slots.zipIdx.find? fun (s, _) => !s.isNull && (s.offset < fixed || s.offset + s.length > inUse)).map
    fun (s, i) => (i, s)

/-- Rebuilds a record of kind `kind` from the bytes a stream carries, giving it
`slack` free bytes. The size, free and reference-count fields are set from
what was read; the kind, the counts and the string slots are checked. The
buffer's size must fit a 64-bit size.

The length of the header is checked before any field is read, and the
fixed region's end before any slot or token is read: every read below is
given the proof that it lies inside `bytes`. -/
def ofWire (bytes : List UInt8) (slack : Nat) (kind : RecordKind) : Except StreamError Record :=
  if hshort : bytes.length < headerSize then .error (.corruptRecord (.shortRecord bytes.length))
  else if maxU64 < bytes.length + slack then .error (.recordTooLarge bytes.length)
  else
    have hheader : 32 ≤ bytes.length := by simp only [headerSize] at hshort; omega
    match RecordKind.ofCode? (wordAt bytes 20 4 (by omega)) with
    | none => .error (.corruptRecord (.kindMismatch kind none))
    | some found =>
      if found ≠ kind then .error (.corruptRecord (.kindMismatch kind (some found)))
      else
        let refSlots := wordAt bytes 24 4 (by omega)
        let fields := wordAt bytes 28 4 (by omega)
        let fixed := headerSize + (2 + fields + refSlots) * slotSize
        if hfixed : fixed > bytes.length then
          .error (.corruptRecord (.fixedTooLarge fixed bytes.length))
        else
          let slots := readSlots (2 + fields) (bytes.drop headerSize)
            (by simp only [fixed, headerSize, slotSize, List.length_drop] at hfixed ⊢; omega)
          match firstOutside fixed bytes.length slots with
          | some (i, s) => .error (.corruptRecord (.slotOutsideHeap i s.offset s.length))
          | none =>
            let tokens := readTokens refSlots (bytes.drop (headerSize + (2 + fields) * slotSize))
              (by simp only [fixed, headerSize, slotSize, List.length_drop] at hfixed ⊢; omega)
            .ok ⟨kind, 0, slots, tokens, bytes.drop fixed, slack⟩

end Record

end CimBroker.Stream
