import CimBroker.Stream.Class
import CimBroker.Proofs.Stream.Words

/-!
# The layout of a record, and reading it back

A `Record` keeps the parts of a compact record's buffer; its bytes are a
function of them. This module gives the facts about that layout that the
stream proofs rest on.

Three properties of a record decide whether its bytes describe it:

* `Record.Fits`: every 32-bit field fits its width (slot offsets and
  lengths and the two counts) and the two name slots are there;
* `Record.TokensFit`: every token fits its 64-bit word;
* `Record.SlotsInHeap`: every string slot that is not null points between
  the end of the fixed region and the end of the bytes in use.

A record with all three is read back from its bytes in use by
`Record.ofWire`, with the size, free and reference-count fields made afresh
(`ofWire_inUseBytes`); conversely whatever `ofWire` accepts has all three
(`ofWire_eq_ok`). Setting a string keeps them, and reads back what was set
while every other slot reads as before.

## Main results

* `Record.length_bytes` — the buffer is as long as its size field says.
* `Record.ofWire_inUseBytes` — a record is read back from its bytes in use.
* `Record.string_congr` — records with the same slots, fixed region and heap
  read the same strings.
* `Record.setString_eq_ok` — what a successful `setString` does.
* `Record.string_setString_self`, `Record.string_setString_of_ne` — reading
  after writing a string slot.
-/

namespace CimBroker.Stream

namespace Record

variable {r r' : Record}

/-! ## Sizes -/

@[simp] theorem length_fixedBytes (r : Record) : r.fixedBytes.length = r.fixedSize := by
  simp only [fixedBytes, fixedSize, headerSize, slotSize, List.length_append, length_le,
    List.length_flatMap, List.map_const', List.sum_replicate_nat]
  omega

@[simp] theorem length_inUseBytes (r : Record) : r.inUseBytes.length = r.inUse := by
  simp [inUseBytes, inUse]

/-- The buffer is as long as the size field it starts with. -/
@[simp] theorem length_bytes (r : Record) : r.bytes.length = r.totalSize := by
  simp [bytes, totalSize]

theorem fixedSize_le_inUse (r : Record) : r.fixedSize ≤ r.inUse := by
  simp [inUse]

theorem inUse_le_totalSize (r : Record) : r.inUse ≤ r.totalSize := by
  simp [totalSize]

theorem headerSize_le_fixedSize (r : Record) : headerSize ≤ r.fixedSize := by
  simp [fixedSize]

/-! ## The size fields -/

/-- The total-size field at the head of the buffer, as read from it. -/
def totalField (r : Record) : Nat := readLE (r.bytes.take 8)

/-- The free-bytes field that follows it, as read from the buffer. -/
def freeField (r : Record) : Nat := readLE ((r.bytes.drop 8).take 8)

theorem bytes_eq (r : Record) :
    r.bytes = le 8 r.totalSize ++ (le 8 r.free ++ ((le 4 r.refCount ++ le 4 r.kind.code ++
      le 4 r.tokens.length ++ le 4 r.fieldCount ++ r.slots.flatMap (fun s => le 4 s.offset ++ le 4 s.length) ++
      r.tokens.flatMap (le 8)) ++ r.heap ++ List.replicate r.free 0)) := by
  simp [bytes, inUseBytes, fixedBytes]

/-- A buffer shorter than `2 ^ 64` bytes has its length in its size field. -/
theorem totalField_eq (h : r.totalSize < 2 ^ 64) : r.totalField = r.totalSize := by
  rw [totalField, bytes_eq, List.take_left' (length_le 8 _)]
  exact readLE_le 8 _ h

/-- The free-bytes field holds the size of the free tail, when the buffer is
shorter than `2 ^ 64` bytes. -/
theorem freeField_eq (h : r.totalSize < 2 ^ 64) : r.freeField = r.free := by
  have hfree : r.free < 256 ^ 8 := by
    simp only [totalSize] at h
    omega
  rw [freeField, bytes_eq, List.drop_left' (length_le 8 _), List.take_left' (length_le 8 _)]
  exact readLE_le 8 _ hfree

/-! ## Well-formed records -/

/-- Every 32-bit field of the record fits its width, and the two name slots
are there. -/
structure Fits (r : Record) : Prop where
  two_le : 2 ≤ r.slots.length
  slots_lt : ∀ s ∈ r.slots, s.offset < 2 ^ 32 ∧ s.length < 2 ^ 32
  fieldCount_lt : r.fieldCount < 2 ^ 32
  tokens_length_lt : r.tokens.length < 2 ^ 32

/-- Every token fits its 64-bit slot. A token names an instance of the
arena, so this is a bound on the arena as much as on the record. -/
def TokensFit (r : Record) : Prop := ∀ t ∈ r.tokens, t < 2 ^ 64

/-- Every string slot that is not null lies between the end of the fixed
region and the end of the bytes in use. -/
def SlotsInHeap (r : Record) : Prop :=
  ∀ s ∈ r.slots, s.isNull = false → r.fixedSize ≤ s.offset ∧ s.offset + s.length ≤ r.inUse

theorem RecordKind.code_lt (k : RecordKind) : k.code < 2 ^ 32 := by
  cases k <;> decide

@[simp] theorem RecordKind.ofCode?_code (k : RecordKind) : RecordKind.ofCode? k.code = some k := by
  cases k <;> rfl

/-! ## Reading a record back -/

/-- The bytes in use, split where the reader looks: the three fields it
overwrites, the kind, the two counts, the slots, the tokens and the heap. -/
theorem inUseBytes_eq (r : Record) :
    r.inUseBytes = le 8 r.totalSize ++ le 8 r.free ++ le 4 r.refCount ++
      (le 4 r.kind.code ++ (le 4 r.tokens.length ++ (le 4 r.fieldCount ++
        (r.slots.flatMap (fun s => le 4 s.offset ++ le 4 s.length) ++
          (r.tokens.flatMap (le 8) ++ r.heap))))) := by
  simp [inUseBytes, fixedBytes]

/-- Slots written at their width are read back. -/
theorem readSlots_eq (slots : List Slot) (hfit : ∀ s ∈ slots, s.offset < 2 ^ 32 ∧ s.length < 2 ^ 32)
    (rest : List UInt8) {n : Nat} {bs : List UInt8} (h : n * slotSize ≤ bs.length) (hn : n = slots.length)
    (hbs : bs = slots.flatMap (fun s => le 4 s.offset ++ le 4 s.length) ++ rest) :
    readSlots n bs h = slots := by
  subst hn
  induction slots generalizing bs with
  | nil => rfl
  | cons s slots ih =>
    have hs := hfit s (by simp)
    subst hbs
    simp only [List.length_cons, readSlots]
    rw [ih (fun s' hs' => hfit s' (by simp [hs'])) (by simp [List.drop_append])]
    simp [readLE_le 4 _ hs.1, readLE_le 4 _ hs.2]

/-- Tokens written at their width are read back. -/
theorem readTokens_eq (tokens : List Nat) (hfit : ∀ t ∈ tokens, t < 2 ^ 64)
    (rest : List UInt8) {n : Nat} {bs : List UInt8} (h : n * slotSize ≤ bs.length) (hn : n = tokens.length)
    (hbs : bs = tokens.flatMap (le 8) ++ rest) :
    readTokens n bs h = tokens := by
  subst hn
  induction tokens generalizing bs with
  | nil => rfl
  | cons t tokens ih =>
    have ht := hfit t (by simp)
    subst hbs
    simp only [List.length_cons, readTokens]
    rw [ih (fun t' ht' => hfit t' (by simp [ht'])) (by simp)]
    simp [readLE_le 8 _ ht]

/-- The reader refuses no slot exactly when every slot that is not null lies
in `[fixed, inUse)`. -/
theorem firstOutside_eq_none_iff {fixed inUse : Nat} {slots : List Slot} :
    firstOutside fixed inUse slots = none ↔
      ∀ s ∈ slots, s.isNull = false → fixed ≤ s.offset ∧ s.offset + s.length ≤ inUse := by
  simp only [firstOutside, Option.map_eq_none_iff, List.find?_eq_none, Bool.and_eq_true,
    Bool.not_eq_true', Bool.or_eq_true, decide_eq_true_eq, not_and, not_or, Nat.not_lt]
  constructor
  · intro h s hs hnull
    obtain ⟨k, hk⟩ := List.mem_iff_getElem?.1 hs
    have := h (s, k) (List.mem_zipIdx_iff_getElem?.2 hk) hnull
    omega
  · rintro h ⟨s, k⟩ hsk hnull
    have := h s (List.fst_mem_of_mem_zipIdx hsk) hnull
    omega

/-- No slot of a record whose slots lie in its heap is refused. -/
theorem firstOutside_eq_none (hheap : r.SlotsInHeap) :
    firstOutside r.fixedSize r.inUse r.slots = none :=
  firstOutside_eq_none_iff.2 hheap

/-- A 32-bit word that follows `n` bytes is read at offset `n`. -/
theorem readLE_word_at {xs rest : List UInt8} {n k : Nat} (hn : xs.length = n) (hk : k < 2 ^ 32) :
    readLE (((xs ++ (le 4 k ++ rest)).drop n).take 4) = k := by
  subst hn
  simp [readLE_le 4 k hk]

/-- The header words at offsets 20, 24 and 28: kind, token count, field count. -/
theorem header_words (hfit : r.Fits) :
    readLE ((r.inUseBytes.drop 20).take 4) = r.kind.code ∧
      readLE ((r.inUseBytes.drop 24).take 4) = r.tokens.length ∧
      readLE ((r.inUseBytes.drop 28).take 4) = r.fieldCount := by
  refine ⟨?_, ?_, ?_⟩
  · rw [inUseBytes_eq]
    exact readLE_word_at (by simp) (RecordKind.code_lt r.kind)
  · have h : r.inUseBytes = (le 8 r.totalSize ++ le 8 r.free ++ le 4 r.refCount ++ le 4 r.kind.code) ++
        (le 4 r.tokens.length ++ (le 4 r.fieldCount ++
          (r.slots.flatMap (fun s => le 4 s.offset ++ le 4 s.length) ++ (r.tokens.flatMap (le 8) ++ r.heap)))) := by
      rw [inUseBytes_eq]
      simp only [List.append_assoc]
    rw [h]
    exact readLE_word_at (by simp) hfit.tokens_length_lt
  · have h : r.inUseBytes =
        (le 8 r.totalSize ++ le 8 r.free ++ le 4 r.refCount ++ le 4 r.kind.code ++ le 4 r.tokens.length) ++
        (le 4 r.fieldCount ++
          (r.slots.flatMap (fun s => le 4 s.offset ++ le 4 s.length) ++ (r.tokens.flatMap (le 8) ++ r.heap))) := by
      rw [inUseBytes_eq]
      simp only [List.append_assoc]
    rw [h]
    exact readLE_word_at (by simp) hfit.fieldCount_lt

/-- **Reading a record back.** A record whose fields fit and whose slots lie
in its heap is rebuilt from its bytes in use, with `slack` free bytes and
no references counted. -/
theorem ofWire_inUseBytes (hfit : r.Fits) (htok : r.TokensFit) (hheap : r.SlotsInHeap) {slack : Nat}
    (hsize : r.inUse + slack ≤ maxU64) :
    ofWire r.inUseBytes slack r.kind = .ok { r with refCount := 0, free := slack } := by
  have hslots : 2 + r.fieldCount = r.slots.length := by
    have := hfit.two_le
    simp only [fieldCount]
    omega
  have hfixed : headerSize + (2 + r.fieldCount + r.tokens.length) * slotSize = r.fixedSize := by
    simp only [fixedSize, hslots, headerSize, slotSize]
    omega
  have hlen : r.inUseBytes.length = r.inUse := length_inUseBytes r
  have hhead := headerSize_le_fixedSize r
  have hfin := fixedSize_le_inUse r
  obtain ⟨hk, ht, hf⟩ := header_words hfit
  -- past the header come the slots, the tokens and the heap
  have hsplit : r.inUseBytes = (le 8 r.totalSize ++ le 8 r.free ++ le 4 r.refCount ++ le 4 r.kind.code ++
      le 4 r.tokens.length ++ le 4 r.fieldCount) ++
      (r.slots.flatMap (fun s => le 4 s.offset ++ le 4 s.length) ++ (r.tokens.flatMap (le 8) ++ r.heap)) := by
    rw [inUseBytes_eq]
    simp only [List.append_assoc]
  have hslotBytes : (r.slots.flatMap (fun s => le 4 s.offset ++ le 4 s.length)).length =
      (2 + r.fieldCount) * slotSize := by
    simp only [List.length_flatMap, List.length_append, length_le, Nat.reduceAdd, List.map_const',
      List.sum_replicate_nat, hslots, slotSize]
  have htokenBytes : (r.tokens.flatMap (le 8)).length = r.tokens.length * slotSize := by
    simp only [List.length_flatMap, length_le, List.map_const', List.sum_replicate_nat, slotSize]
  have hdropSlots : r.inUseBytes.drop headerSize =
      r.slots.flatMap (fun s => le 4 s.offset ++ le 4 s.length) ++ (r.tokens.flatMap (le 8) ++ r.heap) := by
    rw [hsplit]
    exact List.drop_left' (by simp [headerSize])
  have hdropTokens : r.inUseBytes.drop (headerSize + (2 + r.fieldCount) * slotSize) =
      r.tokens.flatMap (le 8) ++ r.heap := by
    rw [← List.drop_drop, hdropSlots]
    exact List.drop_left' hslotBytes
  have hdropHeap : r.inUseBytes.drop r.fixedSize = r.heap := by
    rw [← hfixed, Nat.add_mul, ← Nat.add_assoc, ← List.drop_drop, hdropTokens]
    exact List.drop_left' htokenBytes
  have hnotShort : ¬ r.inUse < headerSize := by omega
  have hnotLarge : ¬ r.fixedSize > r.inUse := by omega
  have hnotHuge : ¬ maxU64 < r.inUse + slack := by omega
  simp only [ofWire, wordAt, hk, ht, hf, RecordKind.ofCode?_code, hfixed, hlen, dif_neg hnotShort,
    if_neg hnotHuge, ne_eq, not_true_eq_false, if_false, dif_neg hnotLarge]
  rw [readSlots_eq r.slots hfit.slots_lt _ _ hslots hdropSlots, firstOutside_eq_none hheap,
    readTokens_eq r.tokens htok _ _ rfl hdropTokens, hdropHeap]

/-! ## What a decoded record satisfies -/

theorem length_readSlots (n : Nat) (bs : List UInt8) (h : n * slotSize ≤ bs.length) :
    (readSlots n bs h).length = n := by
  induction n generalizing bs with
  | zero => rfl
  | succ n ih => simp [readSlots, ih]

theorem length_readTokens (n : Nat) (bs : List UInt8) (h : n * slotSize ≤ bs.length) :
    (readTokens n bs h).length = n := by
  induction n generalizing bs with
  | zero => rfl
  | succ n ih => simp [readTokens, ih]

/-- A word read from at most `k` bytes is below `2 ^ (8 * k)`. -/
theorem readLE_take_lt (k : Nat) (bs : List UInt8) : readLE (bs.take k) < 2 ^ (8 * k) := by
  have hle : 256 ^ (bs.take k).length ≤ 256 ^ k :=
    Nat.pow_le_pow_right (by decide) (List.length_take_le k bs)
  have hpow : (2 : Nat) ^ (8 * k) = 256 ^ k := by rw [Nat.pow_mul]
  rw [hpow]
  exact Nat.lt_of_lt_of_le (readLE_lt _) hle

theorem readSlots_lt (n : Nat) (bs : List UInt8) (h : n * slotSize ≤ bs.length) :
    ∀ s ∈ readSlots n bs h, s.offset < 2 ^ 32 ∧ s.length < 2 ^ 32 := by
  induction n generalizing bs with
  | zero => simp [readSlots]
  | succ n ih =>
    simp only [readSlots, List.mem_cons]
    rintro s (rfl | hs)
    · exact ⟨readLE_take_lt 4 _, readLE_take_lt 4 _⟩
    · exact ih _ _ s hs

theorem readTokens_lt (n : Nat) (bs : List UInt8) (h : n * slotSize ≤ bs.length) :
    ∀ t ∈ readTokens n bs h, t < 2 ^ 64 := by
  induction n generalizing bs with
  | zero => simp [readTokens]
  | succ n ih =>
    simp only [readTokens, List.mem_cons]
    rintro t (rfl | ht)
    · exact readLE_take_lt 8 _
    · exact ih _ _ t ht

/-- **What a decoded record satisfies.** A record that `ofWire` accepts has
the kind asked for, no references counted and `slack` free bytes; its bytes
in use are as many as were read, its size fits a 64-bit size, its fields
fit and its slots lie in its heap. -/
theorem ofWire_eq_ok {bytes : List UInt8} {slack : Nat} {kind : RecordKind}
    (h : ofWire bytes slack kind = .ok r) :
    r.kind = kind ∧ r.refCount = 0 ∧ r.free = slack ∧ r.inUse = bytes.length ∧ r.totalSize ≤ maxU64 ∧
      r.Fits ∧ r.TokensFit ∧ r.SlotsInHeap := by
  unfold ofWire at h
  simp only at h
  split at h
  · cases h
  rename_i hshort
  split at h
  · cases h
  rename_i hhuge
  split at h
  · cases h
  split at h
  · cases h
  rename_i hkind
  split at h
  · cases h
  rename_i hfix
  split at h
  · cases h
  rename_i hnone
  cases h
  have hin : ∀ (bs : List UInt8) (at_ : Nat) (h : at_ + 4 ≤ bs.length), wordAt bs at_ 4 h < 2 ^ 32 :=
    fun bs at_ _ => readLE_take_lt 4 _
  simp only [headerSize, slotSize] at hshort hfix hnone
  refine ⟨rfl, rfl, rfl, ?_, ?_, ⟨?_, readSlots_lt _ _ _, ?_, ?_⟩, readTokens_lt _ _ _, ?_⟩
  · simp only [inUse, fixedSize, length_readSlots, length_readTokens, List.length_drop, headerSize, slotSize]
    omega
  · simp only [totalSize, inUse, fixedSize, length_readSlots, length_readTokens, List.length_drop,
      headerSize, slotSize]
    omega
  · simp [length_readSlots]
  · simp only [fieldCount, length_readSlots]
    have := hin bytes 28 (by omega)
    omega
  · simp only [length_readTokens]
    exact hin bytes 24 _
  · intro s hs hnull
    have := firstOutside_eq_none_iff.1 hnone s hs hnull
    simp only [inUse, fixedSize, length_readSlots, length_readTokens, List.length_drop, headerSize, slotSize]
    omega

/-! ## Strings -/

/-- A slot in the heap reads its bytes from the heap alone. -/
theorem string_eq_of_inHeap {k : Nat} {s : Slot} (hs : r.slots[k]? = some s) (hnull : s.isNull = false)
    (hin : r.fixedSize ≤ s.offset ∧ s.offset + s.length ≤ r.inUse) :
    r.string k = some ((r.heap.drop (s.offset - r.fixedSize)).take s.length) := by
  have htotal := inUse_le_totalSize r
  have hfit : s.offset + s.length ≤ r.totalSize := by omega
  simp only [string, hs, hnull, Bool.false_eq_true, if_false, hfit, if_true, Option.some.injEq]
  have hbytes : r.bytes = r.fixedBytes ++ (r.heap ++ List.replicate r.free 0) := by
    simp [bytes, inUseBytes]
  have hheap : s.offset - r.fixedSize + s.length ≤ r.heap.length := by
    simp only [inUse] at hin
    omega
  rw [hbytes, List.drop_append, List.drop_eq_nil_of_le (by simp; omega), List.nil_append,
    length_fixedBytes, List.drop_append, List.take_append_of_le_length (by simp; omega)]

/-- A slot reads the same in a record with that slot, the same fixed region
and a heap that extends the first one's, when the slot lies in the heap. -/
theorem string_eq_of_slot_eq {j : Nat} (hslot : r'.slots[j]? = r.slots[j]?)
    (hfixed : r'.fixedSize = r.fixedSize) (hheap : r.heap <+: r'.heap) (hin : r.SlotsInHeap) :
    r'.string j = r.string j := by
  obtain ⟨ext, hext⟩ := hheap
  cases hs : r.slots[j]? with
  | none => simp [string, hs, hslot]
  | some s =>
    have hs' : r'.slots[j]? = some s := by rw [hslot, hs]
    cases hnull : s.isNull
    · have hinr := hin s (List.mem_of_getElem? hs) hnull
      have hinr' : r'.fixedSize ≤ s.offset ∧ s.offset + s.length ≤ r'.inUse := by
        simp only [inUse, hfixed, ← hext, List.length_append] at hinr ⊢
        omega
      rw [string_eq_of_inHeap hs hnull hinr, string_eq_of_inHeap hs' hnull hinr', hfixed, ← hext,
        List.drop_append_of_le_length (by simp only [inUse] at hinr; omega),
        List.take_append_of_le_length (by simp only [inUse, List.length_drop] at hinr ⊢; omega)]
    · simp [string, hs, hs', hnull]

/-- Records with the same slots, the same fixed region and the same heap read
the same strings, when the slots lie in the heap. -/
theorem string_congr (hslots : r'.slots = r.slots) (hfixed : r'.fixedSize = r.fixedSize)
    (hheap : r'.heap = r.heap) (hin : r.SlotsInHeap) (k : Nat) : r'.string k = r.string k :=
  string_eq_of_slot_eq (by rw [hslots]) hfixed (hheap ▸ List.prefix_refl r.heap) hin

theorem text_congr (hslots : r'.slots = r.slots) (hfixed : r'.fixedSize = r.fixedSize)
    (hheap : r'.heap = r.heap) (hin : r.SlotsInHeap) (k : Nat) : r'.text k = r.text k := by
  simp only [text, string_congr hslots hfixed hheap hin k]

/-! ## Setting strings and tokens -/

theorem reserve_eq_ok {n : Nat} (h : r.reserve n = .ok r') : ∃ free, n ≤ free ∧ r' = { r with free := free } := by
  unfold reserve at h
  split at h
  · simp only at h
    split at h
    · cases h
    · cases h
      exact ⟨_, by omega, rfl⟩
  · cases h
    exact ⟨r.free, by omega, rfl⟩

theorem appendHeap_eq_ok {v : List UInt8} {off : Nat} (h : r.appendHeap v = .ok (off, r')) :
    off = r.inUse ∧ r.inUse ≤ maxU32 ∧ ∃ free, r' = { r with heap := r.heap ++ v, free := free } := by
  unfold appendHeap at h
  cases hr : r.reserve v.length with
  | error e => simp [hr] at h
  | ok r1 =>
    obtain ⟨free, _, rfl⟩ := reserve_eq_ok hr
    simp only [hr, Except.ok_bind] at h
    split at h
    · cases h
    · rename_i hle
      cases h
      exact ⟨rfl, by simp only [inUse, fixedSize] at hle ⊢; omega, ⟨_, rfl⟩⟩

/-- **What setting a string does.** The slot must exist; null empties it, and
bytes shorter than the null length are appended to the heap, the slot
pointed at them; nothing else but the free tail changes. -/
theorem setString_eq_ok {k : Nat} {v : Option (List UInt8)} (h : r.setString k v = .ok r') :
    k < r.slots.length ∧
      ((v = none ∧ r' = { r with slots := r.slots.set k Slot.null }) ∨
        ∃ bytes free, v = some bytes ∧ bytes.length < nullLength ∧ r.inUse ≤ maxU32 ∧
          r' = { r with slots := r.slots.set k ⟨r.inUse, bytes.length⟩, heap := r.heap ++ bytes,
                        free := free }) := by
  unfold setString at h
  split at h
  · rename_i hk
    refine ⟨hk, ?_⟩
    split at h
    · cases h
      exact .inl ⟨rfl, rfl⟩
    · rename_i bytes
      split at h
      · cases h
      · rename_i hlen
        cases ha : r.appendHeap bytes with
        | error e => simp [ha] at h
        | ok p =>
          obtain ⟨off, r1⟩ := p
          obtain ⟨rfl, hmax, free, rfl⟩ := appendHeap_eq_ok ha
          simp only [ha, Except.ok_bind] at h
          cases h
          exact .inr ⟨bytes, free, rfl, by omega, hmax, rfl⟩
  · cases h

/-- Setting a string changes neither the kind, the reference count, the
tokens nor the number of slots. -/
theorem setString_frame {k : Nat} {v : Option (List UInt8)} (h : r.setString k v = .ok r') :
    r'.kind = r.kind ∧ r'.refCount = r.refCount ∧ r'.tokens = r.tokens ∧
      r'.slots.length = r.slots.length ∧ r'.fixedSize = r.fixedSize := by
  obtain ⟨_, ⟨_, rfl⟩ | ⟨_, _, _, _, _, rfl⟩⟩ := setString_eq_ok h <;> simp [fixedSize]

theorem setString_fits {k : Nat} {v : Option (List UInt8)} (h : r.setString k v = .ok r')
    (hfit : r.Fits) : r'.Fits := by
  obtain ⟨hk, ⟨_, rfl⟩ | ⟨bytes, free, _, hlen, hmax, rfl⟩⟩ := setString_eq_ok h
  · refine ⟨by simpa using hfit.two_le, ?_, by simpa [fieldCount] using hfit.fieldCount_lt,
      hfit.tokens_length_lt⟩
    intro s hs
    rcases List.mem_or_eq_of_mem_set hs with hs | rfl
    · exact hfit.slots_lt s hs
    · simp [Slot.null, nullLength, maxU32]
  · refine ⟨by simpa using hfit.two_le, ?_, by simpa [fieldCount] using hfit.fieldCount_lt,
      hfit.tokens_length_lt⟩
    intro s hs
    rcases List.mem_or_eq_of_mem_set hs with hs | rfl
    · exact hfit.slots_lt s hs
    · simp only [nullLength, maxU32] at hlen hmax ⊢
      omega

theorem setString_slotsInHeap {k : Nat} {v : Option (List UInt8)} (h : r.setString k v = .ok r')
    (hin : r.SlotsInHeap) : r'.SlotsInHeap := by
  obtain ⟨hk, ⟨_, rfl⟩ | ⟨bytes, free, _, hlen, _, rfl⟩⟩ := setString_eq_ok h
  · intro s hs hnull
    rcases List.mem_or_eq_of_mem_set hs with hs | rfl
    · simpa [inUse, fixedSize] using hin s hs hnull
    · simp [Slot.null, Slot.isNull] at hnull
  · intro s hs hnull
    rcases List.mem_or_eq_of_mem_set hs with hs | rfl
    · have := hin s hs hnull
      simp only [inUse, fixedSize, List.length_set, List.length_append] at this ⊢
      omega
    · simp only [inUse, fixedSize, List.length_set, List.length_append]
      omega

/-- A string slot reads back what was set in it. -/
theorem string_setString_self {k : Nat} {v : Option (List UInt8)} (h : r.setString k v = .ok r') :
    r'.string k = v := by
  obtain ⟨hk, ⟨rfl, rfl⟩ | ⟨bytes, free, rfl, hlen, _, rfl⟩⟩ := setString_eq_ok h
  · simp [string, hk, Slot.null, Slot.isNull]
  · have hnull : Slot.isNull ⟨r.inUse, bytes.length⟩ = false := by
      simp only [Slot.isNull, beq_eq_false_iff_ne]
      omega
    rw [string_eq_of_inHeap (by simp [hk]) hnull (by simp [inUse, fixedSize, Nat.add_assoc])]
    simp [inUse, fixedSize]

/-- Setting one string slot leaves every other slot reading as before. -/
theorem string_setString_of_ne {j k : Nat} {v : Option (List UInt8)} (h : r.setString k v = .ok r')
    (hjk : j ≠ k) (hin : r.SlotsInHeap) : r'.string j = r.string j := by
  obtain ⟨_, ⟨_, rfl⟩ | ⟨bytes, free, _, _, _, rfl⟩⟩ := setString_eq_ok h
  · exact string_eq_of_slot_eq (by simp [List.getElem?_set_ne (Ne.symm hjk)]) (by simp [fixedSize])
      (List.prefix_refl _) hin
  · exact string_eq_of_slot_eq (by simp [List.getElem?_set_ne (Ne.symm hjk)]) (by simp [fixedSize])
      (List.prefix_append _ _) hin

/-- A buffer keeps its size unless it grows, and it grows only to a size
that a 32-bit offset reaches. -/
theorem reserve_totalSize {n : Nat} (h : r.reserve n = .ok r') :
    r'.totalSize = r.totalSize ∨ r'.totalSize ≤ maxU32 := by
  unfold reserve at h
  split at h
  · simp only at h
    split at h
    · cases h
    · rename_i hgrown
      cases h
      right
      simp only [totalSize, inUse, fixedSize] at hgrown ⊢
      omega
  · cases h
    exact .inl rfl

theorem appendHeap_totalSize {v : List UInt8} {off : Nat} (h : r.appendHeap v = .ok (off, r')) :
    r'.totalSize = r.totalSize ∨ r'.totalSize ≤ maxU32 := by
  obtain ⟨r₁, hr, h⟩ := Except.bind_eq_ok.1 h
  obtain ⟨free, hfree, rfl⟩ := reserve_eq_ok hr
  have hsize := reserve_totalSize hr
  split at h
  · cases h
  · cases h
    simp only [totalSize, inUse, fixedSize, List.length_append] at hsize ⊢
    omega

theorem setString_totalSize {k : Nat} {v : Option (List UInt8)} (h : r.setString k v = .ok r') :
    r'.totalSize = r.totalSize ∨ r'.totalSize ≤ maxU32 := by
  unfold setString at h
  split at h
  · split at h
    · cases h
      left
      simp [totalSize, inUse, fixedSize]
    · split at h
      · cases h
      · obtain ⟨⟨off, r₁⟩, ha, h⟩ := Except.bind_eq_ok.1 h
        cases h
        have := appendHeap_totalSize ha
        simpa [totalSize, inUse, fixedSize] using this
  · cases h

/-- Setting a token replaces that one token, in a slot that exists. -/
theorem setToken_eq_ok {k t : Nat} (h : r.setToken k t = .ok r') :
    k < r.tokens.length ∧ r' = { r with tokens := r.tokens.set k t } := by
  unfold setToken at h
  split at h
  · cases h
    exact ⟨by assumption, rfl⟩
  · cases h

end Record

end CimBroker.Stream
