import CimBroker.Proofs.Stream.Records

/-!
# Reading back what was written

Each section of a written stream reads back as what was written: the
header, the class blocks, the two tables and the instance blocks, each
leaving the reader right after itself. A record written as its bytes in use
is rebuilt with no reference counted and the decoder's free tail; it reads
the same strings as the record written. A sound class rebuilt so is
accepted as a class, and a sound instance as an instance of any class with
as many properties as it has values. An instance block's reference slots
are resolved by whatever the reference table resolves their tokens to.

## Main results

* `readHeader_written`, `readClasses_blocks`, `readTable_putTable`,
  `readInstances_blocks` — each section reads back.
* `serialize_eq_ok` — the sections of a written stream.
-/

namespace CimBroker.Stream

/-! ## Records rebuilt from their bytes -/

namespace Record

variable {r r' : Record}

theorem fixedSize_eq_of_layout (hslots : r'.slots = r.slots) (htok : r'.tokens.length = r.tokens.length) :
    r'.fixedSize = r.fixedSize := by
  simp [fixedSize, hslots, htok]

/-- A record reads the same strings as one with the same slots, as many
tokens and the same heap, when its slots lie in its heap. -/
theorem string_of_layout (hslots : r'.slots = r.slots) (htok : r'.tokens.length = r.tokens.length)
    (hheap : r'.heap = r.heap) (hin : r.SlotsInHeap) (k : Nat) : r'.string k = r.string k :=
  string_congr hslots (fixedSize_eq_of_layout hslots htok) hheap hin k

theorem text_of_layout (hslots : r'.slots = r.slots) (htok : r'.tokens.length = r.tokens.length)
    (hheap : r'.heap = r.heap) (hin : r.SlotsInHeap) (k : Nat) : r'.text k = r.text k :=
  text_congr hslots (fixedSize_eq_of_layout hslots htok) hheap hin k

theorem Sound.length_inUseBytes_lt (h : r.Sound) : r.inUseBytes.length < 2 ^ 64 := by
  have hle := inUse_le_totalSize r
  have htotal := h.total_le
  rw [length_inUseBytes]
  simp only [maxU64] at htotal
  omega

end Record

/-- A class as the decoder rebuilds it from its bytes in use. -/
def ClassRecord.rebuilt (c : ClassRecord) : ClassRecord := ⟨{ c.record with refCount := 0, free := 0 }⟩

/-- An instance as the decoder rebuilds it from its bytes in use, linked to
class `cls`, with its tokens replaced by `tokens`. -/
def InstanceRecord.rebuilt (i : InstanceRecord) (cls : ClassId) (tokens : List Nat) : InstanceRecord :=
  { record := { i.record with refCount := 0, free := instanceSlack, tokens := tokens }, cls := cls }

namespace ClassRecord

variable {c : ClassRecord}

theorem Sound.ofWire_inUseBytes (hc : c.Sound) :
    Record.ofWire c.record.inUseBytes 0 .classRecord = .ok c.rebuilt.record := by
  have htok : c.record.TokensFit := by
    intro t ht
    rw [hc.tokens_eq] at ht
    cases ht
  have hsize : c.record.inUse + 0 ≤ maxU64 := by
    have := Record.inUse_le_totalSize c.record
    have := hc.record.total_le
    omega
  have h := Record.ofWire_inUseBytes hc.record.fits htok hc.record.slotsInHeap hsize
  rwa [show Record.ofWire c.record.inUseBytes 0 c.record.kind = Record.ofWire c.record.inUseBytes 0 .classRecord by
    rw [hc.kind]] at h

theorem Sound.ofRecord_rebuilt (hc : c.Sound) : ClassRecord.ofRecord c.rebuilt.record = .ok c.rebuilt := by
  refine ClassRecord.ofRecord_eq_ok.2 ⟨rfl, by simp [rebuilt, Record.extRefCount, hc.tokens_eq], ?_⟩
  intro slot hslot
  have htext : c.rebuilt.record.text slot = c.record.text slot :=
    Record.text_of_layout (by rfl) (by rfl) (by rfl) hc.record.slotsInHeap slot
  rw [htext]
  exact hc.names slot hslot

end ClassRecord

namespace InstanceRecord

variable {i : InstanceRecord}

theorem Sound.ofWire_inUseBytes (hi : i.Sound) (htok : i.record.TokensFit) :
    Record.ofWire i.record.inUseBytes instanceSlack .instanceRecord =
      .ok { i.record with refCount := 0, free := instanceSlack } := by
  have h := Record.ofWire_inUseBytes hi.record.fits htok hi.record.slotsInHeap hi.inUse_le
  rwa [show Record.ofWire i.record.inUseBytes instanceSlack i.record.kind =
    Record.ofWire i.record.inUseBytes instanceSlack .instanceRecord by rw [hi.kind]] at h

/-- A sound instance, rebuilt, is accepted as an instance of any class with
as many properties as it has values. -/
theorem Sound.ofRecord_rebuilt (hi : i.Sound) {c : ClassRecord} (hcount : i.valueCount = c.propertyCount)
    (cls : ClassId) :
    InstanceRecord.ofRecord { i.record with refCount := 0, free := instanceSlack } cls c =
      .ok ⟨{ i.record with refCount := 0, free := instanceSlack }, cls⟩ := by
  have hstring : ∀ k, ({ i.record with refCount := 0, free := instanceSlack } : Record).string k = i.record.string k :=
    Record.string_of_layout (by rfl) (by rfl) (by rfl) hi.record.slotsInHeap
  have htext : ∀ k, ({ i.record with refCount := 0, free := instanceSlack } : Record).text k = i.record.text k :=
    Record.text_of_layout (by rfl) (by rfl) (by rfl) hi.record.slotsInHeap
  refine InstanceRecord.ofRecord_eq_ok.2 ⟨rfl, hcount, ?_, ?_⟩
  · rw [hstring, htext]
    exact hi.host
  · rw [hstring, htext]
    exact hi.ns

end InstanceRecord

/-! ## The header and the class blocks -/

/-- The magic and the version that start a stream read back. -/
theorem readHeader_written (rest : List UInt8) (pos : Nat) :
    readHeader ⟨streamMagic ++ (putU32 streamVersion ++ rest), pos⟩ = .ok ⟨rest, pos + 4 + 4⟩ := by
  have hmagic := Reader.take_append streamMagic (putU32 streamVersion ++ rest) pos
  simp only [readHeader, show streamMagic.length = 4 from rfl] at hmagic ⊢
  simp only [hmagic, Except.ok_bind, ne_eq, not_true_eq_false, if_false,
    Reader.u32_putU32 (by decide : streamVersion < 2 ^ 32)]
  rfl

/-- **The class blocks read back**, as the classes rebuilt. The induction is
on the classes still to read. -/
theorem readClasses_blocks : ∀ (cs : List ClassRecord) (rest : List UInt8) (pos : Nat) (acc : Array ClassRecord),
    (∀ c ∈ cs, c.Sound) →
    ∃ pos', readClasses cs.length ⟨cs.flatMap (fun c => putBlock c.record.inUseBytes) ++ rest, pos⟩ acc =
      .ok (acc ++ (cs.map ClassRecord.rebuilt).toArray, ⟨rest, pos'⟩)
  | [], rest, pos, acc, _ => ⟨pos, by simp [readClasses]⟩
  | c :: cs, rest, pos, acc, hcs => by
    have hc := hcs c List.mem_cons_self
    obtain ⟨pos', h⟩ := readClasses_blocks cs rest (pos + 8 + c.record.inUseBytes.length) (acc.push c.rebuilt)
      (fun c' hc' => hcs c' (List.mem_cons_of_mem c hc'))
    refine ⟨pos', ?_⟩
    rw [List.flatMap_cons, List.append_assoc, List.length_cons]
    simp only [readClasses, Reader.block_putBlock hc.record.length_inUseBytes_lt, Except.ok_bind,
      hc.ofWire_inUseBytes, hc.ofRecord_rebuilt, h]
    simp

/-! ## Tables -/

@[simp] theorem length_putEntries (es : List Entry) : (putEntries es).length = entrySize * es.length := by
  induction es with
  | nil => rfl
  | cons e es ih =>
    simp only [putEntries, List.flatMap_cons, List.length_append, length_putU64] at ih ⊢
    rw [ih, entrySize]
    simp only [List.length_cons]
    omega

theorem putCount_eq_ok {n : Nat} {bs : List UInt8} : putCount n = .ok bs ↔ n ≤ maxU32 ∧ bs = putU32 n := by
  unfold putCount
  split
  · rename_i h
    simp only [reduceCtorEq, false_iff, not_and]
    intro hle
    omega
  · rename_i h
    simp only [Except.ok.injEq]
    constructor
    · intro h'
      exact ⟨by omega, h'.symm⟩
    · intro h'
      exact h'.2.symm

theorem putTable_eq_ok {es : List Entry} {bs : List UInt8} :
    putTable es = .ok bs ↔ es.length ≤ maxU32 ∧ bs = putU32 es.length ++ putEntries es := by
  unfold putTable
  cases hcount : putCount es.length with
  | error e =>
    simp only [Except.error_bind, reduceCtorEq, false_iff, not_and]
    intro hle
    rw [putCount_eq_ok.2 ⟨hle, rfl⟩] at hcount
    cases hcount
  | ok count =>
    obtain ⟨hle, rfl⟩ := putCount_eq_ok.1 hcount
    simp only [Except.ok_bind, Except.pure_eq_ok, Except.ok.injEq]
    exact ⟨fun h => ⟨hle, h.symm⟩, fun h => h.2.symm⟩

/-- Entries read back, when their tokens and indices are 64-bit. The
induction is on the entries still to read. -/
theorem readEntries_putEntries : ∀ (es : List Entry) (rest : List UInt8) (pos : Nat) (acc : Array Entry),
    (∀ e ∈ es, e.token < 2 ^ 64 ∧ e.index < 2 ^ 64) →
    readEntries es.length ⟨putEntries es ++ rest, pos⟩ acc = .ok (acc ++ es.toArray, ⟨rest, pos + entrySize * es.length⟩)
  | [], rest, pos, acc, _ => by simp [readEntries, putEntries]
  | e :: es, rest, pos, acc, hfit => by
    obtain ⟨htok, hidx⟩ := hfit e List.mem_cons_self
    have hbytes : putEntries (e :: es) ++ rest = putU64 e.token ++ (putU64 e.index ++ (putEntries es ++ rest)) := by
      simp [putEntries, List.append_assoc]
    rw [hbytes, List.length_cons]
    simp only [readEntries, Reader.u64_putU64 htok, Reader.u64_putU64 hidx, Except.ok_bind]
    rw [readEntries_putEntries es rest _ _ (fun e' he' => hfit e' (List.mem_cons_of_mem e he'))]
    simp only [entrySize, Except.ok.injEq, Prod.mk.injEq, Reader.mk.injEq, true_and]
    constructor
    · simp
    · omega

/-- **A written table reads back**, when its tokens and indices are 64-bit. -/
theorem readTable_putTable {es : List Entry} {bs : List UInt8} (h : putTable es = .ok bs)
    (hfit : ∀ e ∈ es, e.token < 2 ^ 64 ∧ e.index < 2 ^ 64) (rest : List UInt8) (pos : Nat) :
    readTable ⟨bs ++ rest, pos⟩ = .ok (es.toArray, ⟨rest, pos + 4 + entrySize * es.length⟩) := by
  obtain ⟨hlen, rfl⟩ := putTable_eq_ok.1 h
  have hcount : es.length < 2 ^ 32 := by
    simp only [maxU32] at hlen
    omega
  rw [List.append_assoc]
  simp only [readTable, Reader.u32_putU32 hcount, Except.ok_bind]
  rw [if_neg (by simp [Nat.mul_comm]), readEntries_putEntries es rest _ #[] hfit]
  simp

/-! ## Instance blocks -/

/-- What the decoder needs of instance `i`, written at position `p` with
class-resolution entry `e`, to rebuild it against the class list `classes`
and to resolve each of its tokens `t` to `u t`. -/
structure InstanceBlock (classes : Array ClassRecord) (refs : Array Entry) (u : Nat → Nat) (p : Nat) (e : Entry)
    (i : InstanceRecord) : Prop where
  sound : i.Sound
  tokensFit : i.record.TokensFit
  linked : ∃ c, classes[e.index]? = some c ∧ i.valueCount = c.propertyCount
  resolve : ∀ t ∈ i.record.tokens, resolveToken refs p t = .ok (u t)

/-- Resolving the slots of an instance whose every token resolves. -/
theorem resolveSlots_of_resolve {n : Nat} {refs : Array Entry} {u : Nat → Nat} {base p : Nat} (hp : p < n)
    {i : InstanceRecord} (hres : ∀ t ∈ i.record.tokens, resolveToken refs p t = .ok (u t)) (marks : Vector Nat n) :
    resolveSlots refs base p hp i marks =
      .ok ({ i with record := { i.record with tokens := i.record.tokens.map fun t => shiftToken base (u t) } },
        claim marks (i.record.tokens.map u)) := by
  rw [resolveSlots_eq, mapM_eq_ok_of_forall hres, Except.map_ok_eq, List.map_map]
  rfl

/-- **The instance blocks read back**, each rebuilt against the class of its
entry with its tokens resolved, and the marks claimed by the resolved
tokens of every block. The induction is on the entries still to read. -/
theorem readInstances_blocks (classes : Array ClassRecord) (refs : Array Entry) (classBase base : Nat)
    (u : Nat → Nat) {n : Nat} :
    ∀ (entries : List Entry) (recs : List InstanceRecord) (position : Nat) (h : position + entries.length = n)
      (rest : List UInt8) (pos : Nat) (acc : Array (Decoded classes.size)) (marks : Vector Nat n),
      entries.length = recs.length →
      (∀ q (he : q < entries.length) (hr : q < recs.length),
        InstanceBlock classes refs u (position + q) entries[q] recs[q]) →
      ∃ decoded pos', readInstances classes refs classBase base entries position h
          ⟨recs.flatMap (fun i => putBlock i.record.inUseBytes) ++ rest, pos⟩ acc marks =
          .ok (decoded, recs.foldl (fun m i => claim m (i.record.tokens.map u)) marks, ⟨rest, pos'⟩) ∧
        decoded.toList.map (·.inst) = acc.toList.map (·.inst) ++
          List.zipWith (fun e i => i.rebuilt ⟨classBase + e.index⟩ (i.record.tokens.map fun t => shiftToken base (u t)))
            entries recs ∧
        decoded.toList.map (·.classPos.val) = acc.toList.map (·.classPos.val) ++ entries.map (·.index)
  | [], [], _, _, rest, pos, acc, marks, _, _ => ⟨acc, pos, by simp [readInstances]⟩
  | [], _ :: _, _, _, _, _, _, _, hlen, _ => by simp at hlen
  | _ :: _, [], _, _, _, _, _, _, hlen, _ => by simp at hlen
  | e :: es, i :: is, position, h, rest, pos, acc, marks, hlen, hblocks => by
    have hblock : InstanceBlock classes refs u position e i := by
      have h0 := hblocks 0 (by simp) (by simp)
      simpa only [Nat.add_zero, List.getElem_cons_zero] using h0
    obtain ⟨c, hc, hcount⟩ := hblock.linked
    obtain ⟨hk, rfl⟩ := Array.getElem?_eq_some_iff.1 hc
    have hp : position < n := by
      simp at h
      omega
    obtain ⟨decoded, pos', hread, hinst, hpos⟩ := readInstances_blocks classes refs classBase base u es is
      (position + 1) (by simp at h; omega) rest (pos + 8 + i.record.inUseBytes.length)
      (acc.push ⟨i.rebuilt ⟨classBase + e.index⟩ (i.record.tokens.map fun t => shiftToken base (u t)), ⟨e.index, hk⟩⟩)
      (claim marks (i.record.tokens.map u)) (by simpa using hlen) (fun q he hr => by
        have hq := hblocks (q + 1) (by simpa using he) (by simpa using hr)
        simpa [Nat.add_assoc, Nat.add_comm 1 q] using hq)
    have hres : ∀ t ∈ (⟨{ i.record with refCount := 0, free := instanceSlack }, ⟨classBase + e.index⟩⟩ :
        InstanceRecord).record.tokens, resolveToken refs position t = .ok (u t) := hblock.resolve
    refine ⟨decoded, pos', ?_, ?_, ?_⟩
    · rw [List.flatMap_cons, List.append_assoc]
      simp only [readInstances, Reader.block_putBlock hblock.sound.record.length_inUseBytes_lt, Except.ok_bind,
        hblock.sound.ofWire_inUseBytes hblock.tokensFit, dif_pos hk, hblock.sound.ofRecord_rebuilt hcount]
      rw [resolveSlots_of_resolve hp hres, Except.ok_bind]
      exact hread
    · rw [hinst]
      simp [InstanceRecord.rebuilt]
    · rw [hpos]
      simp

/-! ## The sections of a written stream -/

/-- **The front of a written stream reads back**: the classes rebuilt and
the two tables, when the class count fits its field, the classes are sound,
the tables' tokens and indices are 64-bit and no class-resolution entry has
token zero. -/
theorem readFront_written {cs : List ClassRecord} {cr rr : Array Entry} {crBytes rrBytes : List UInt8}
    (hcs : ∀ c ∈ cs, c.Sound) (hlen : cs.length ≤ maxU32) (hcr : putTable cr.toList = .ok crBytes)
    (hrr : putTable rr.toList = .ok rrBytes) (hcrfit : ∀ e ∈ cr.toList, e.token < 2 ^ 64 ∧ e.index < 2 ^ 64)
    (hrrfit : ∀ e ∈ rr.toList, e.token < 2 ^ 64 ∧ e.index < 2 ^ 64) (hzero : ∀ e ∈ cr, e.token ≠ 0)
    (rest : List UInt8) :
    ∃ pos, readFront (streamMagic ++ putU32 streamVersion ++ putU32 cs.length ++
        cs.flatMap (fun c => putBlock c.record.inUseBytes) ++ crBytes ++ rrBytes ++ rest) =
      .ok ((cs.map ClassRecord.rebuilt).toArray, cr, rr, ⟨rest, pos⟩) := by
  have hcount : cs.length < 2 ^ 32 := by
    simp only [maxU32] at hlen
    omega
  obtain ⟨pos, hclasses⟩ := readClasses_blocks cs (crBytes ++ (rrBytes ++ rest)) (0 + 4 + 4 + 4) #[] hcs
  have hany : cr.any (fun e => decide (e.token = 0)) = false := by
    rw [Array.any_eq_false]
    intro i hi
    simpa using hzero _ (Array.getElem_mem hi)
  refine ⟨pos + 4 + entrySize * cr.toList.length + 4 + entrySize * rr.toList.length, ?_⟩
  simp only [List.append_assoc]
  simp only [readFront, Reader.start, readHeader_written, Except.ok_bind, Reader.u32_putU32 hcount, hclasses,
    readTable_putTable hcr hcrfit, Array.toArray_toList, hany]
  simp only [Bool.false_eq_true, if_false, Except.ok_bind, readTable_putTable hrr hrrfit, Array.toArray_toList,
    Array.empty_append, Except.pure_eq_ok]

/-- The records that a list of handles names, listed when every handle
names one. -/
theorem map_eq_of_mapM_eq_ok {α β ε : Type} {f : α → Except ε β} {g : α → Option β}
    (hf : ∀ x r, f x = .ok r → g x = some r) :
    ∀ {l : List α} {us : List β}, l.mapM f = .ok us → l.map g = us.map some
  | [], us, h => by
    cases h
    rfl
  | x :: l, us, h => by
    rw [List.mapM_cons] at h
    obtain ⟨r, hr, h⟩ := Except.bind_eq_ok.1 h
    obtain ⟨rs, hrs, h⟩ := Except.bind_eq_ok.1 h
    cases h
    simp only [List.map_cons, hf x r hr, map_eq_of_mapM_eq_ok hf hrs]

/-- **The sections of a written stream**: the header, the class count and
the class blocks of the class table, the class-resolution table, the
reference-resolution table and the instance blocks of the instance order. -/
theorem serialize_eq_ok {a : Arena} {tops : List InstanceId} {bytes : List UInt8} (h : serialize a tops = .ok bytes) :
    ∃ (t : Tables) (classes : List ClassRecord) (recs : List InstanceRecord) (crBytes rrBytes : List UInt8),
      Tables.ofTops a tops = .ok t ∧ t.classTable.size ≤ maxU32 ∧
      t.classTable.toList.map a.cls = classes.map some ∧ t.instanceOrder.toList.map a.inst = recs.map some ∧
      putTable t.classResolution.toList = .ok crBytes ∧ putTable t.referenceResolution.toList = .ok rrBytes ∧
      bytes = streamMagic ++ putU32 streamVersion ++ putU32 t.classTable.size ++
        classes.flatMap (fun c => putBlock c.record.inUseBytes) ++ crBytes ++ rrBytes ++
        recs.flatMap (fun i => putBlock i.record.inUseBytes) := by
  simp only [serialize] at h
  obtain ⟨t, ht, h⟩ := Except.bind_eq_ok.1 h
  obtain ⟨classCount, hcount, h⟩ := Except.bind_eq_ok.1 h
  obtain ⟨classes, hclasses, h⟩ := Except.bind_eq_ok.1 h
  obtain ⟨crBytes, hcr, h⟩ := Except.bind_eq_ok.1 h
  obtain ⟨rrBytes, hrr, h⟩ := Except.bind_eq_ok.1 h
  obtain ⟨recs, hrecs, h⟩ := Except.bind_eq_ok.1 h
  cases h
  obtain ⟨hle, rfl⟩ := putCount_eq_ok.1 hcount
  refine ⟨t, classes, recs, crBytes, rrBytes, ht, hle, ?_, ?_, hcr, hrr, rfl⟩
  · refine map_eq_of_mapM_eq_ok (fun c r hc => ?_) hclasses
    split at hc
    · rename_i r' hr'
      cases hc
      exact hr'
    · cases hc
  · refine map_eq_of_mapM_eq_ok (fun x r hx => ?_) hrecs
    split at hx
    · rename_i r' hr'
      cases hx
      exact hr'
    · cases hx

end CimBroker.Stream
