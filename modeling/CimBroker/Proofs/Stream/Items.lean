import CimBroker.Proofs.Stream.ReadBack
import CimBroker.Proofs.Stream.Refusal

/-!
# Sequences of wire items read back

A stream is built from three primitives: a `u32` word, a `u64` word, and a
block, which is a `u64` length followed by that many bytes. This module
takes any sequence of them written one after another and reads it with the
reads of the same kinds, in the same order:

* the whole buffer reads back as the items written, and no byte is left;
* a proper prefix of it reads back every item that lies wholly before the
  cut, and the read of the first item that crosses the cut fails as
  truncated: it reports where the field or payload it misses starts, how
  long that field or payload is, and how many of its bytes are there;
* a table of entries reads back as its entries whenever its count fits the
  32-bit count word; the writer refuses a longer table.

An item keeps its value when the value fits what writes it (`Item.Fits`):
a word its width, a block's length the `u64` length word.

## Main results

* `Reader.readItems_putItems` — a written sequence reads back.
* `Reader.readItems_cut` — a proper prefix reads back up to the cut, and the
  read across the cut is truncated where the missing bytes start.
* `ReadsBack`, `TableReadsBack` — what the reads of a written sequence and
  of a written table give, and `wire_primitives_inverse`, that they hold.
-/

namespace CimBroker.Stream

/-- An item of a stream. -/
inductive Item where
  /-- A `u32` word. -/
  | u32 (n : Nat)
  /-- A `u64` word. -/
  | u64 (n : Nat)
  /-- A block: its length as a `u64` word, then its bytes. -/
  | block (bytes : List UInt8)
deriving DecidableEq, Repr

/-- The three reads of a stream. -/
inductive Kind where
  | u32
  | u64
  | block
deriving DecidableEq, Repr

namespace Item

/-- The read that matches the item. -/
def kind : Item → Kind
  | .u32 _ => .u32
  | .u64 _ => .u64
  | .block _ => .block

/-- The item's value fits what writes it: a word its width, a block's
length the length word. -/
def Fits : Item → Prop
  | .u32 n => n < 2 ^ 32
  | .u64 n => n < 2 ^ 64
  | .block bs => bs.length < 2 ^ 64

instance : DecidablePred Fits
  | .u32 n => inferInstanceAs (Decidable (n < 2 ^ 32))
  | .u64 n => inferInstanceAs (Decidable (n < 2 ^ 64))
  | .block bs => inferInstanceAs (Decidable (bs.length < 2 ^ 64))

/-- The bytes that write the item. -/
def put : Item → List UInt8
  | .u32 n => putU32 n
  | .u64 n => putU64 n
  | .block bs => putBlock bs

/-- How the read of an item written at `pos` fails when only `left` of its
bytes are there: the field that is cut short is the word itself, or for a
block its length word when fewer than eight bytes are there and its
payload otherwise. The error gives where that field starts, its width or
the block's length, and the bytes there from its start. -/
def cutShort : Item → Nat → Nat → StreamError
  | .u32 _, pos, left => .truncated pos 4 left
  | .u64 _, pos, left => .truncated pos 8 left
  | .block bs, pos, left =>
    if left < 8 then .truncated pos 8 left else .truncated (pos + 8) bs.length (left - 8)

end Item

/-- A sequence of items written one after another. -/
def putItems (xs : List Item) : List UInt8 := xs.flatMap Item.put

namespace Reader

/-- The read of kind `k`, what it read given as an item of that kind. -/
def readItem (r : Reader) : Kind → Except StreamError (Item × Reader)
  | .u32 => r.u32.map fun p => (.u32 p.1, p.2)
  | .u64 => r.u64.map fun p => (.u64 p.1, p.2)
  | .block => r.block.map fun p => (.block p.1, p.2)

/-- Reads of the kinds `ks` in turn; the first that fails stops the rest. -/
def readItems (r : Reader) : List Kind → Except StreamError (List Item × Reader)
  | [] => .ok ([], r)
  | k :: ks => do
    let first ← r.readItem k
    let rest ← first.2.readItems ks
    return (first.1 :: rest.1, rest.2)

end Reader

/-! ## Lengths of what is written -/

@[simp] theorem putItems_nil : putItems [] = [] := rfl

@[simp] theorem putItems_cons (x : Item) (xs : List Item) : putItems (x :: xs) = x.put ++ putItems xs := by
  simp [putItems]

@[simp] theorem putItems_append (xs ys : List Item) : putItems (xs ++ ys) = putItems xs ++ putItems ys := by
  simp [putItems]

theorem Item.length_put_block (bs : List UInt8) : (Item.block bs).put.length = 8 + bs.length := by
  simp [put]

/-! ## Reads of too few bytes -/

namespace Reader

variable {r : Reader}

/-- A take of more bytes than are left fails where the reader stands. -/
theorem take_of_lt {n : Nat} (h : r.remaining < n) : r.take n = .error (.truncated r.pos n r.remaining) := by
  simp only [remaining] at h
  simp [take, h, remaining]

theorem u32_of_lt (h : r.remaining < 4) : r.u32 = .error (.truncated r.pos 4 r.remaining) := by
  simp [u32, take_of_lt h]

/-- Three bytes are too few for a `u32` word. -/
example : (Reader.start [1, 2, 3]).u32 = .error (.truncated 0 4 3) := rfl

theorem u64_of_lt (h : r.remaining < 8) : r.u64 = .error (.truncated r.pos 8 r.remaining) := by
  simp [u64, take_of_lt h]

/-- A block whose length word is cut short fails at the length word. -/
theorem block_of_lt (h : r.remaining < 8) : r.block = .error (.truncated r.pos 8 r.remaining) := by
  simp [block, u64_of_lt h]

/-- A block whose length word is there and whose payload is cut short fails
at the payload, after the length word. -/
theorem block_payload_cut {bs : List UInt8} (h : bs.length < 2 ^ 64) {k : Nat} (hk : k < bs.length)
    (pos : Nat) : (⟨putU64 bs.length ++ bs.take k, pos⟩ : Reader).block =
      .error (.truncated (pos + 8) bs.length k) := by
  have hleft : (⟨bs.take k, pos + 8⟩ : Reader).remaining < bs.length := by
    simp only [remaining_mk, List.length_take]
    omega
  simp only [block, u64_putU64 h, Except.ok_bind, take_of_lt hleft, remaining_mk, List.length_take]
  rw [Nat.min_eq_left (by omega)]

end Reader

/-! ## One item -/

namespace Item

variable {x : Item}

/-- **An item reads back** with the read of its kind, when it fits. -/
theorem readItem_put (hx : x.Fits) (rest : List UInt8) (pos : Nat) :
    (⟨x.put ++ rest, pos⟩ : Reader).readItem x.kind = .ok (x, ⟨rest, pos + x.put.length⟩) := by
  cases x with
  | u32 n => simp [put, kind, Reader.readItem, Reader.u32_putU32 hx]
  | u64 n => simp [put, kind, Reader.readItem, Reader.u64_putU64 hx]
  | block bs =>
    simp only [put, kind, Reader.readItem, Reader.block_putBlock hx, Except.map_ok_eq, length_putBlock]
    rw [Nat.add_assoc]

/-- **An item cut short** fails to read with `cutShort`: the read of its kind
sees only `k` of its bytes. -/
theorem readItem_cut (hx : x.Fits) {k : Nat} (hk : k < x.put.length) (pos : Nat) :
    (⟨x.put.take k, pos⟩ : Reader).readItem x.kind = .error (x.cutShort pos k) := by
  cases x with
  | u32 n =>
    rw [put, length_putU32] at hk
    have hleft : (⟨(putU32 n).take k, pos⟩ : Reader).remaining = k := by simp; omega
    rw [put, kind, Reader.readItem, Reader.u32_of_lt (by omega), hleft]
    rfl
  | u64 n =>
    rw [put, length_putU64] at hk
    have hleft : (⟨(putU64 n).take k, pos⟩ : Reader).remaining = k := by simp; omega
    rw [put, kind, Reader.readItem, Reader.u64_of_lt (by omega), hleft]
    rfl
  | block bs =>
    rw [length_put_block] at hk
    simp only [kind, Reader.readItem, cutShort, put, putBlock]
    by_cases hword : k < 8
    · -- the length word itself is cut
      have hleft : (⟨(putU64 bs.length ++ bs).take k, pos⟩ : Reader).remaining = k := by simp; omega
      rw [Reader.block_of_lt (by omega), hleft, if_pos hword]
      rfl
    · -- the length word is whole and the payload is cut
      rw [List.take_append, List.take_of_length_le (by simp; omega), length_putU64,
        Reader.block_payload_cut hx (by omega), if_neg hword]
      rfl

end Item

/-! ## Sequences -/

namespace Reader

variable {r r' : Reader} {ks : List Kind} {ys : List Item}

/-- Reads that succeed are followed by the reads after them. -/
theorem readItems_append_of_ok (h : r.readItems ks = .ok (ys, r')) (ks' : List Kind) :
    r.readItems (ks ++ ks') = (r'.readItems ks').map fun p => (ys ++ p.1, p.2) := by
  induction ks generalizing r ys with
  | nil =>
    cases h
    simp only [List.nil_append]
    cases r'.readItems ks' <;> rfl
  | cons k ks ih =>
    simp only [readItems] at h
    obtain ⟨first, hfirst, h⟩ := Except.bind_eq_ok.1 h
    obtain ⟨⟨zs, r''⟩, hrest, h⟩ := Except.bind_eq_ok.1 h
    cases h
    simp only [List.cons_append, readItems, hfirst, Except.ok_bind, ih hrest]
    cases r''.readItems ks' <;> rfl

/-- Reads that succeed up to a read that fails fail with it, whatever reads
were to follow. -/
theorem readItems_append_error (h : r.readItems ks = .ok (ys, r')) {k : Kind} {e : StreamError}
    (hk : r'.readItem k = .error e) (ks' : List Kind) : r.readItems (ks ++ k :: ks') = .error e := by
  rw [readItems_append_of_ok h, readItems, hk]
  rfl

/-- **A written sequence reads back**: the reads of the items' kinds over
what they wrote give the items, and leave the reader at what follows. The
induction is on the items, with the position carried along. -/
theorem readItems_putItems {xs : List Item} (hfit : ∀ x ∈ xs, x.Fits) (rest : List UInt8) (pos : Nat) :
    (⟨putItems xs ++ rest, pos⟩ : Reader).readItems (xs.map Item.kind) =
      .ok (xs, ⟨rest, pos + (putItems xs).length⟩) := by
  induction xs generalizing pos with
  | nil => rfl
  | cons x xs ih =>
    have hx := hfit x List.mem_cons_self
    have hxs := ih (fun y hy => hfit y (List.mem_cons_of_mem x hy)) (pos + x.put.length)
    simp only [putItems_cons, List.append_assoc, List.map_cons, readItems, Item.readItem_put hx,
      Except.ok_bind, hxs, Except.pure_eq_ok, List.length_append, Nat.add_assoc]

/-- **A proper prefix reads back up to the cut.** Cut the bytes of a
sequence at `c`: the items wholly before the cut (`done`) read back, the
reader then stands at the start of the item `x` that crosses the cut, and
the read of `x` fails with `x.cutShort`. The induction is on the items, with
the cut and the position moved past each item read. -/
theorem readItems_cut {xs : List Item} (hfit : ∀ x ∈ xs, x.Fits) {c : Nat} (hc : c < (putItems xs).length)
    (pos : Nat) :
    ∃ done x later, xs = done ++ x :: later ∧ (putItems done).length ≤ c ∧
      c < (putItems done).length + x.put.length ∧
      (⟨(putItems xs).take c, pos⟩ : Reader).readItems (done.map Item.kind) =
        .ok (done, ⟨x.put.take (c - (putItems done).length), pos + (putItems done).length⟩) ∧
      (⟨x.put.take (c - (putItems done).length), pos + (putItems done).length⟩ : Reader).readItem x.kind =
        .error (x.cutShort (pos + (putItems done).length) (c - (putItems done).length)) := by
  induction xs generalizing pos c with
  | nil => simp at hc
  | cons x xs ih =>
    have hx := hfit x List.mem_cons_self
    rw [putItems_cons] at hc ⊢
    by_cases hcx : c < x.put.length
    · -- the cut falls inside the first item
      refine ⟨[], x, xs, rfl, by simp, by simpa using hcx, ?_, ?_⟩
      · rw [List.take_append_of_le_length (by omega)]
        rfl
      · simpa using Item.readItem_cut hx hcx pos
    · -- the first item lies before the cut: read it and cut the rest
      simp only [List.length_append] at hc
      obtain ⟨done, y, later, hxs, hle, hlt, hdone, hy⟩ :=
        ih (fun z hz => hfit z (List.mem_cons_of_mem x hz)) (c := c - x.put.length) (by omega)
          (pos + x.put.length)
      have hcut : (x.put ++ putItems xs).take c = x.put ++ (putItems xs).take (c - x.put.length) := by
        rw [List.take_append, List.take_of_length_le (by omega)]
      have hoff : c - x.put.length - (putItems done).length = c - (putItems (x :: done)).length := by
        simp only [putItems_cons, List.length_append]
        omega
      have hpos : pos + x.put.length + (putItems done).length = pos + (putItems (x :: done)).length := by
        simp only [putItems_cons, List.length_append, Nat.add_assoc]
      refine ⟨x :: done, y, later, by rw [hxs]; rfl, ?_, ?_, ?_, ?_⟩
      · simp only [putItems_cons, List.length_append]
        omega
      · simp only [putItems_cons, List.length_append]
        omega
      · rw [hcut, List.map_cons, readItems, Item.readItem_put hx, Except.ok_bind, hdone, hoff, hpos]
        rfl
      · rw [← hoff, ← hpos]
        exact hy

end Reader

/-! ## Sequences and tables read back -/

/-- What the reads of a written sequence `xs` give. -/
structure ReadsBack (xs : List Item) : Prop where
  /-- From the start, the whole buffer reads back as the items, and no
  byte is left. -/
  whole : ∃ r, (Reader.start (putItems xs)).readItems (xs.map Item.kind) = .ok (xs, r) ∧ r.remaining = 0
  /-- Cut at any `c` short of the end, the items `done` wholly before the
  cut read back and leave the reader where the next item `x` starts; the
  read of `x`, and so the reads of the whole sequence, fail as `x` cut
  short: where its missing field or payload starts, with its width or the
  block's length, and the `c - offset` bytes there. -/
  cut : ∀ c < (putItems xs).length, ∃ done x later, xs = done ++ x :: later ∧
    (putItems done).length ≤ c ∧ c < (putItems done).length + x.put.length ∧
    ∃ r, (Reader.start ((putItems xs).take c)).readItems (done.map Item.kind) = .ok (done, r) ∧
      r.pos = (putItems done).length ∧ r.readItem x.kind = .error (x.cutShort r.pos (c - r.pos)) ∧
      (Reader.start ((putItems xs).take c)).readItems (xs.map Item.kind) =
        .error (x.cutShort r.pos (c - r.pos))

/-- What writing and then reading a table `es` gives. -/
structure TableReadsBack (es : List Entry) : Prop where
  /-- A count that fits the 32-bit count word is written, and the table
  reads back as its entries, leaving the reader right after it. -/
  fits : es.length ≤ maxU32 → ∃ bs, putTable es = .ok bs ∧
    ∀ rest pos, readTable ⟨bs ++ rest, pos⟩ = .ok (es.toArray, ⟨rest, pos + bs.length⟩)
  /-- A longer table is refused by the writer. -/
  overflow : maxU32 < es.length → putTable es = .error (.countOverflow es.length)

theorem readsBack_of_fits {xs : List Item} (hfit : ∀ x ∈ xs, x.Fits) : ReadsBack xs where
  whole := ⟨_, by simpa [Reader.start] using Reader.readItems_putItems hfit [] 0, rfl⟩
  cut c hc := by
    obtain ⟨done, x, later, hxs, hle, hlt, hdone, hx⟩ := Reader.readItems_cut hfit hc 0
    rw [Nat.zero_add] at hdone hx
    have hkinds : xs.map Item.kind = done.map Item.kind ++ x.kind :: later.map Item.kind := by
      rw [hxs, List.map_append, List.map_cons]
    refine ⟨done, x, later, hxs, hle, hlt, _, hdone, rfl, hx, ?_⟩
    rw [hkinds]
    exact Reader.readItems_append_error hdone hx _

theorem tableReadsBack_of_fits {es : List Entry} (hentries : ∀ e ∈ es, e.token < 2 ^ 64 ∧ e.index < 2 ^ 64) :
    TableReadsBack es where
  fits hcount := by
    refine ⟨_, putTable_eq_ok.2 ⟨hcount, rfl⟩, fun rest pos => ?_⟩
    rw [readTable_putTable (putTable_eq_ok.2 ⟨hcount, rfl⟩) hentries rest pos]
    simp [Nat.add_assoc]
  overflow hcount := by
    cases h : putTable es with
    | ok bs => exact absurd (putTable_eq_ok.1 h).1 (by omega)
    | error e => rw [(putTable_eq_error.1 h).2]

/-- **Wire primitives are inverse.** Items that fit their writers, written
one after another, read back from the start as those items with no byte
left; cut short of the end, they read back up to the cut, and the first read
across it fails as truncated where the field or payload it misses starts
(`ReadsBack`). A table of 64-bit entries is written whenever its count fits
the 32-bit count word, and then reads back as its entries; a longer table
is refused by the writer (`TableReadsBack`). -/
theorem wire_primitives_inverse {xs : List Item} (hfit : ∀ x ∈ xs, x.Fits) {es : List Entry}
    (hentries : ∀ e ∈ es, e.token < 2 ^ 64 ∧ e.index < 2 ^ 64) : ReadsBack xs ∧ TableReadsBack es :=
  ⟨readsBack_of_fits hfit, tableReadsBack_of_fits hentries⟩

/-- The items of a short stream: a `u32`, the largest `u64` but one, and a
three-byte block, with a table of two entries. -/
theorem wire_primitives_inverse_sample :
    ((∀ x ∈ [Item.u32 7, Item.u64 (2 ^ 64 - 2), Item.block [97, 98, 99]], x.Fits) ∧
      ∀ e ∈ [(⟨1, 0⟩ : Entry), ⟨2, 1⟩], e.token < 2 ^ 64 ∧ e.index < 2 ^ 64) ∧
    ReadsBack [Item.u32 7, Item.u64 (2 ^ 64 - 2), Item.block [97, 98, 99]] ∧
      TableReadsBack [(⟨1, 0⟩ : Entry), ⟨2, 1⟩] :=
  ⟨⟨by decide, by decide⟩, wire_primitives_inverse (by decide) (by decide)⟩

end CimBroker.Stream
