import CimBroker.Proofs.Stream.Decoding

/-!
# The records an arena keeps

Every record of an arena was made by `ClassRecord.new` or
`InstanceRecord.new`, or read from a stream, and then changed only by
setting strings and tokens. This module says what such a record satisfies
and shows that each of these operations keeps it.

A sound record (`Record.Sound`) has its 32-bit fields in range, a buffer no
larger than a 64-bit size, and its strings in its heap. A sound class
(`ClassRecord.Sound`) is a class record with no reference slots whose name,
namespace and property names are all UTF-8 text: exactly what the decoder
checks of a class. A sound instance (`InstanceRecord.Sound`) is an instance
record whose host name and namespace are UTF-8 text where present, and
whose bytes in use leave room below a 64-bit size for the free bytes the
decoder gives an instance: again what the decoder checks.

## Main results

* `ClassRecord.new_eq_ok` — a new class holds its name, namespace and
  property names, and is sound.
* `InstanceRecord.new_eq_ok` — a new instance is sound, with one null value
  per property and every reference slot empty.
* `InstanceRecord.Sound.setValue`, `.setHostName`, `.setNamespace`,
  `.setExtRef` — setting a field keeps an instance sound.
* `ClassRecord.Sound.of_decoded`, `InstanceRecord.Sound.of_decoded` — a
  record the decoder accepts is sound.
-/

namespace CimBroker.Stream

/-- The UTF-8 bytes of a text decode to it. -/
theorem ClassRecord.fromUTF8?_utf8 (s : String) : String.fromUTF8? ⟨(ClassRecord.utf8 s).toArray⟩ = some s := by
  have hb : (⟨(ClassRecord.utf8 s).toArray⟩ : ByteArray) = s.toByteArray := by simp [ClassRecord.utf8]
  rw [hb, String.fromUTF8?, dif_pos s.isValidUTF8]
  rfl

namespace Record

variable {r r' : Record}

theorem text_setString_utf8 {k : Nat} {s : String} (h : r.setString k (some (ClassRecord.utf8 s)) = .ok r') :
    r'.text k = some s := by
  simp [text, string_setString_self h, ClassRecord.fromUTF8?_utf8]

theorem text_setString_of_ne {j k : Nat} {v : Option (List UInt8)} (h : r.setString k v = .ok r')
    (hjk : j ≠ k) (hin : r.SlotsInHeap) : r'.text j = r.text j := by
  simp [text, string_setString_of_ne h hjk hin]

@[simp] theorem string_new (kind : RecordKind) (fieldCount extRefCount slot : Nat) :
    (Record.new kind fieldCount extRefCount).string slot = none := by
  simp only [string, Record.new]
  split
  · rfl
  · rename_i s hs
    have := List.mem_of_getElem? hs
    simp only [List.mem_replicate] at this
    simp [this.2, Slot.null, Slot.isNull]

/-- What every record of an arena satisfies: its 32-bit fields fit, its
buffer is no larger than a 64-bit size, and its strings lie in its heap. -/
structure Sound (r : Record) : Prop where
  fits : r.Fits
  total_le : r.totalSize ≤ maxU64
  slotsInHeap : r.SlotsInHeap

theorem Sound.setString {k : Nat} {v : Option (List UInt8)} (hs : r.Sound) (h : r.setString k v = .ok r') :
    r'.Sound := by
  refine ⟨setString_fits h hs.fits, ?_, setString_slotsInHeap h hs.slotsInHeap⟩
  have := hs.total_le
  rcases setString_totalSize h with h' | h' <;> simp only [maxU32, maxU64] at * <;> omega

/-- A record keeps its soundness when its tokens are replaced by as many. -/
theorem Sound.withTokens {ts : List Nat} (hs : r.Sound) (hlen : ts.length = r.tokens.length) :
    ({ r with tokens := ts } : Record).Sound := by
  have hfixed : ({ r with tokens := ts } : Record).fixedSize = r.fixedSize := by simp [fixedSize, hlen]
  refine ⟨⟨hs.fits.two_le, hs.fits.slots_lt, hs.fits.fieldCount_lt, hlen ▸ hs.fits.tokens_length_lt⟩, ?_, ?_⟩
  · simpa [totalSize, inUse, hfixed] using hs.total_le
  · intro s hsm hnull
    simpa [inUse, hfixed] using hs.slotsInHeap s hsm hnull

theorem sound_new (kind : RecordKind) (fieldCount extRefCount : Nat) (hf : fieldCount < 2 ^ 32)
    (he : extRefCount < 2 ^ 32) : (Record.new kind fieldCount extRefCount).Sound := by
  refine ⟨⟨by simp [Record.new], ?_, by simpa [Record.new, Record.fieldCount] using hf,
    by simpa [Record.new] using he⟩, ?_, ?_⟩
  · intro s hs
    simp only [Record.new, List.mem_replicate] at hs
    simp [hs.2, Slot.null, nullLength, maxU32]
  · simp only [totalSize, inUse, fixedSize, Record.new, List.length_replicate, List.length_nil, headerSize,
      slotSize, maxU64]
    omega
  · intro s hs hnull
    simp only [Record.new, List.mem_replicate] at hs
    simp [hs.2, Slot.null, Slot.isNull] at hnull

/-- A string is set only in a record whose bytes in use a 32-bit offset
reaches, so setting one leaves the bytes in use where they were or below
twice that. -/
theorem inUse_setString {k : Nat} {v : Option (List UInt8)} (h : r.setString k v = .ok r') :
    r'.inUse = r.inUse ∨ r'.inUse < 2 * maxU32 := by
  obtain ⟨_, ⟨_, rfl⟩ | ⟨bytes, free, _, hlen, hmax, rfl⟩⟩ := setString_eq_ok h
  · left
    simp [inUse, fixedSize]
  · right
    simp only [inUse, fixedSize, List.length_set, List.length_append, nullLength] at hlen hmax ⊢
    omega

end Record

/-! ## Classes -/

/-- A class record as an arena keeps it: a sound class record with no
reference slots whose name, namespace and property names are UTF-8 text. -/
structure ClassRecord.Sound (c : ClassRecord) : Prop where
  record : c.record.Sound
  kind : c.record.kind = .classRecord
  tokens_eq : c.record.tokens = []
  names : ∀ slot < 2 + c.record.fieldCount, (c.record.text slot).isSome

/-- Setting the property names from the `m`-th on. The induction is on the
names still to set; each one set keeps the record sound and leaves the
slots before it reading as they did. -/
private theorem foldlM_setName (props : List String) (m : Nat) (r r' : Record) (hs : r.Sound)
    (h : (props.zipIdx m).foldlM (fun r (p, i) => r.setString (2 + i) (some (ClassRecord.utf8 p))) r = .ok r') :
    r'.Sound ∧ r'.kind = r.kind ∧ r'.refCount = r.refCount ∧ r'.tokens = r.tokens ∧
      r'.slots.length = r.slots.length ∧ (∀ j < 2 + m, r'.text j = r.text j) ∧
      ∀ j (hj : j < props.length), r'.text (2 + m + j) = some props[j] := by
  induction props generalizing m r with
  | nil =>
    cases h
    simp [hs]
  | cons p ps ih =>
    rw [List.zipIdx_cons, List.foldlM_cons] at h
    obtain ⟨r₁, h₁, h⟩ := Except.bind_eq_ok.1 h
    obtain ⟨hkind₁, hrc₁, htok₁, hlen₁, -⟩ := Record.setString_frame h₁
    obtain ⟨hs', hkind, hrc, htok, hlen, hbefore, hafter⟩ := ih (m + 1) r₁ (hs.setString h₁) h
    refine ⟨hs', hkind.trans hkind₁, hrc.trans hrc₁, htok.trans htok₁, hlen.trans hlen₁, ?_, ?_⟩
    · intro j hj
      rw [hbefore j (by omega), Record.text_setString_of_ne h₁ (by omega) hs.slotsInHeap]
    · intro j hj
      cases j with
      | zero =>
        rw [hbefore (2 + m + 0) (by omega)]
        simpa using Record.text_setString_utf8 h₁
      | succ j =>
        have := hafter j (by simpa using hj)
        rw [show 2 + m + (j + 1) = 2 + (m + 1) + j by omega, this]
        simp

/-- **A new class.** A class that `ClassRecord.new` makes is sound, counts no
instances, and holds its name, its namespace and its property names, in
order. -/
theorem ClassRecord.new_eq_ok {name ns : String} {props : List String} {c : ClassRecord}
    (h : ClassRecord.new name ns props = .ok c) :
    c.Sound ∧ c.refCount = 0 ∧ c.propertyCount = props.length ∧ c.record.text 0 = some name ∧
      c.record.text 1 = some ns ∧ ∀ j (hj : j < props.length), c.record.text (2 + j) = some props[j] := by
  unfold ClassRecord.new at h
  split at h
  · cases h
  rename_i hcount
  obtain ⟨r₁, h₁, h⟩ := Except.bind_eq_ok.1 h
  obtain ⟨r₂, h₂, h⟩ := Except.bind_eq_ok.1 h
  obtain ⟨r₃, h₃, h⟩ := Except.bind_eq_ok.1 h
  cases h
  have hs₀ := Record.sound_new .classRecord props.length 0 (by simp only [maxU32] at hcount; omega) (by decide)
  have hs₁ := hs₀.setString h₁
  have hs₂ := hs₁.setString h₂
  obtain ⟨hk₁, hrc₁, htok₁, hlen₁, -⟩ := Record.setString_frame h₁
  obtain ⟨hk₂, hrc₂, htok₂, hlen₂, -⟩ := Record.setString_frame h₂
  obtain ⟨hs₃, hk₃, hrc₃, htok₃, hlen₃, hbefore, hafter⟩ := foldlM_setName props 0 r₂ r₃ hs₂ h₃
  have hfields : r₃.fieldCount = props.length := by
    simp [Record.fieldCount, hlen₃, hlen₂, hlen₁, Record.new]
  have hname : r₃.text 0 = some name := by
    rw [hbefore 0 (by omega), Record.text_setString_of_ne h₂ (by omega) hs₁.slotsInHeap]
    exact Record.text_setString_utf8 h₁
  have hns : r₃.text 1 = some ns := by
    rw [hbefore 1 (by omega)]
    exact Record.text_setString_utf8 h₂
  have hprops : ∀ j (hj : j < props.length), r₃.text (2 + j) = some props[j] := by
    intro j hj
    simpa using hafter j hj
  refine ⟨⟨hs₃, ?_, ?_, ?_⟩, ?_, hfields, hname, hns, hprops⟩
  · simp [hk₃, hk₂, hk₁, Record.new]
  · simp [htok₃, htok₂, htok₁, Record.new]
  · intro slot hslot
    simp only [hfields] at hslot
    rcases Nat.lt_or_ge slot 2 with hlt | hge
    · rcases (by omega : slot = 0 ∨ slot = 1) with rfl | rfl <;> simp [hname, hns]
    · have := hprops (slot - 2) (by omega)
      rw [show 2 + (slot - 2) = slot by omega] at this
      simp [this]
  · simp [ClassRecord.refCount, hrc₃, hrc₂, hrc₁, Record.new]

@[simp] theorem ClassRecord.addRef_record_slots (c : ClassRecord) : c.addRef.record.slots = c.record.slots := rfl

@[simp] theorem ClassRecord.propertyCount_addRef (c : ClassRecord) : c.addRef.propertyCount = c.propertyCount := rfl

/-- A class stays sound whatever number of instances it counts. -/
theorem ClassRecord.Sound.withRefCount {c : ClassRecord} (hc : c.Sound) (n : Nat) :
    (⟨{ c.record with refCount := n }⟩ : ClassRecord).Sound := by
  have hfixed : ({ c.record with refCount := n } : Record).fixedSize = c.record.fixedSize := rfl
  have htext : ∀ k, ({ c.record with refCount := n } : Record).text k = c.record.text k := fun k =>
    Record.text_congr (by rfl) hfixed (by rfl) hc.record.slotsInHeap k
  have hfit := hc.record.fits
  refine ⟨⟨⟨hfit.1, hfit.2, hfit.3, hfit.4⟩, hc.record.total_le, hc.record.slotsInHeap⟩, hc.kind, hc.tokens_eq, ?_⟩
  intro slot hslot
  rw [htext]
  exact hc.names slot hslot

/-- Linking an instance to a class changes only its count, so the class
stays sound. -/
theorem ClassRecord.Sound.addRef {c : ClassRecord} (hc : c.Sound) : c.addRef.Sound :=
  hc.withRefCount _

/-- A class the decoder accepts is sound and counts no instances. -/
theorem ClassRecord.Sound.of_decoded {bytes : List UInt8} {record : Record} {c : ClassRecord}
    (hwire : Record.ofWire bytes 0 .classRecord = .ok record) (hc : ClassRecord.ofRecord record = .ok c) :
    c.Sound ∧ c.refCount = 0 := by
  obtain ⟨hkind, hrc, -, -, htotal, hfit, -, hheap⟩ := Record.ofWire_eq_ok hwire
  obtain ⟨rfl, hrefs, hnames⟩ := ClassRecord.ofRecord_eq_ok.1 hc
  exact ⟨⟨⟨hfit, htotal, hheap⟩, hkind, List.eq_nil_of_length_eq_zero hrefs, hnames⟩, hrc⟩

/-! ## Instances -/

/-- An instance record as an arena keeps it: a sound instance record whose
host name and namespace are UTF-8 text where present, with room below a
64-bit size for the free bytes a decoded instance gets. -/
structure InstanceRecord.Sound (i : InstanceRecord) : Prop where
  record : i.record.Sound
  kind : i.record.kind = .instanceRecord
  inUse_le : i.record.inUse + instanceSlack ≤ maxU64
  host : (i.record.string 0).isSome → (i.record.text 0).isSome
  ns : (i.record.string 1).isSome → (i.record.text 1).isSome

namespace InstanceRecord

variable {i i' : InstanceRecord}

/-- **A new instance** is sound, linked to the class it was made for, with
one value per property of that class and every reference slot empty. -/
theorem new_eq_ok {cls : ClassId} {c : ClassRecord} {refSlots : UInt32}
    (h : InstanceRecord.new cls c refSlots = .ok i) :
    i.Sound ∧ i.cls = cls ∧ i.valueCount = c.propertyCount ∧ i.record.tokens = List.replicate refSlots.toNat 0 := by
  unfold InstanceRecord.new at h
  split at h
  · cases h
  rename_i hcount
  obtain ⟨r, hr, h⟩ := Except.bind_eq_ok.1 h
  cases h
  have hs₀ := Record.sound_new .instanceRecord c.propertyCount refSlots.toNat
    (by simp only [maxU32] at hcount; omega) refSlots.toNat_lt
  obtain ⟨hk, -, htok, hlen, -⟩ := Record.setString_frame hr
  have hsize : r.inUse + instanceSlack ≤ maxU64 := by
    have hin := Record.inUse_le_totalSize r
    have hnew := refSlots.toNat_lt
    rcases Record.setString_totalSize hr with h' | h' <;>
      simp only [Record.totalSize, Record.inUse, Record.fixedSize, Record.new, List.length_replicate,
        List.length_nil, headerSize, slotSize, maxU32, maxU64, instanceSlack] at h' hin hcount ⊢ <;> omega
  refine ⟨⟨hs₀.setString hr, by simp [hk, Record.new], hsize, ?_, ?_⟩, rfl, ?_, by simp [htok, Record.new]⟩
  · rw [Record.string_setString_of_ne hr (by omega) hs₀.slotsInHeap]
    simp
  · intro _
    simp [Record.text_setString_utf8 hr]
  · simp [valueCount, Record.fieldCount, hlen, Record.new]

/-- Setting a string keeps an instance sound when the host name and the
namespace it leaves are UTF-8 text where present: the bytes in use grow only
from below a 32-bit offset, so they keep their room. -/
private theorem sound_setString {k : Nat} {v : Option (List UInt8)} {r' : Record} (hi : i.Sound)
    (h : i.record.setString k v = .ok r') (hhost : (r'.string 0).isSome → (r'.text 0).isSome)
    (hns : (r'.string 1).isSome → (r'.text 1).isSome) : ({ i with record := r' } : InstanceRecord).Sound := by
  obtain ⟨hkind, -, -, -, -⟩ := Record.setString_frame h
  refine ⟨hi.record.setString h, hkind.trans hi.kind, ?_, hhost, hns⟩
  have := hi.inUse_le
  rcases Record.inUse_setString h with h' | h' <;> simp only [maxU32, maxU64, instanceSlack] at * <;> omega

/-- What a successful `setValue` does: it sets a value slot of the record and
keeps the instance sound, its class, its values' count and its tokens. -/
theorem Sound.setValue {index : Nat} {v : Option (List UInt8)} (hi : i.Sound) (h : i.setValue index v = .ok i') :
    i'.Sound ∧ i'.cls = i.cls ∧ i'.valueCount = i.valueCount ∧ i'.record.tokens = i.record.tokens := by
  unfold InstanceRecord.setValue at h
  split at h
  · obtain ⟨r', hr, rfl⟩ := Except.map_eq_ok.1 h
    obtain ⟨-, -, htok, hlen, -⟩ := Record.setString_frame hr
    have hin := hi.record.slotsInHeap
    refine ⟨sound_setString hi hr ?_ ?_, rfl, by simp [valueCount, Record.fieldCount, hlen], htok⟩
    · rw [Record.string_setString_of_ne hr (by omega) hin, Record.text_setString_of_ne hr (by omega) hin]
      exact hi.host
    · rw [Record.string_setString_of_ne hr (by omega) hin, Record.text_setString_of_ne hr (by omega) hin]
      exact hi.ns
  · cases h

theorem Sound.setHostName {host : String} (hi : i.Sound) (h : i.setHostName host = .ok i') :
    i'.Sound ∧ i'.cls = i.cls ∧ i'.valueCount = i.valueCount ∧ i'.record.tokens = i.record.tokens := by
  obtain ⟨r', hr, rfl⟩ := Except.map_eq_ok.1 h
  obtain ⟨-, -, htok, hlen, -⟩ := Record.setString_frame hr
  have hin := hi.record.slotsInHeap
  refine ⟨sound_setString hi hr ?_ ?_, rfl, by simp [valueCount, Record.fieldCount, hlen], htok⟩
  · simp [Record.text_setString_utf8 hr]
  · rw [Record.string_setString_of_ne hr (by omega) hin, Record.text_setString_of_ne hr (by omega) hin]
    exact hi.ns

theorem Sound.setNamespace {ns : String} (hi : i.Sound) (h : i.setNamespace ns = .ok i') :
    i'.Sound ∧ i'.cls = i.cls ∧ i'.valueCount = i.valueCount ∧ i'.record.tokens = i.record.tokens := by
  obtain ⟨r', hr, rfl⟩ := Except.map_eq_ok.1 h
  obtain ⟨-, -, htok, hlen, -⟩ := Record.setString_frame hr
  have hin := hi.record.slotsInHeap
  refine ⟨sound_setString hi hr ?_ ?_, rfl, by simp [valueCount, Record.fieldCount, hlen], htok⟩
  · rw [Record.string_setString_of_ne hr (by omega) hin, Record.text_setString_of_ne hr (by omega) hin]
    exact hi.host
  · simp [Record.text_setString_utf8 hr]

/-- An instance keeps its soundness when its tokens are replaced by as
many: the strings it reads do not move. -/
theorem Sound.withTokens {ts : List Nat} (hi : i.Sound) (hlen : ts.length = i.record.tokens.length) :
    ({ i with record := { i.record with tokens := ts } } : InstanceRecord).Sound := by
  have hfixed : ({ i.record with tokens := ts } : Record).fixedSize = i.record.fixedSize := by
    simp [Record.fixedSize, hlen]
  have hstring : ∀ k, ({ i.record with tokens := ts } : Record).string k = i.record.string k :=
    Record.string_congr (by rfl) hfixed (by rfl) hi.record.slotsInHeap
  have htext : ∀ k, ({ i.record with tokens := ts } : Record).text k = i.record.text k :=
    Record.text_congr (by rfl) hfixed (by rfl) hi.record.slotsInHeap
  refine ⟨hi.record.withTokens hlen, hi.kind, ?_, ?_, ?_⟩
  · simpa [Record.inUse, hfixed] using hi.inUse_le
  · simpa [hstring, htext] using hi.host
  · simpa [hstring, htext] using hi.ns

/-- What a successful `setExtRef` does: it puts the target's token, or zero,
in one existing reference slot, and keeps the instance sound. -/
theorem Sound.setExtRef {slot : Nat} {target : Option InstanceId} (hi : i.Sound)
    (h : i.setExtRef slot target = .ok i') :
    i'.Sound ∧ i'.cls = i.cls ∧ i'.valueCount = i.valueCount ∧ slot < i.record.tokens.length ∧
      i'.record.tokens = i.record.tokens.set slot ((target.map InstanceId.token).getD 0) := by
  obtain ⟨r', hr, rfl⟩ := Except.map_eq_ok.1 h
  obtain ⟨hslot, rfl⟩ := Record.setToken_eq_ok hr
  exact ⟨hi.withTokens (by simp), rfl, rfl, hslot, rfl⟩

/-- An instance the decoder accepts, with its tokens resolved to as many,
is sound. -/
theorem Sound.of_decoded {bytes : List UInt8} {record : Record} {cls : ClassId} {c : ClassRecord}
    {ts : List Nat} (hwire : Record.ofWire bytes instanceSlack .instanceRecord = .ok record)
    (hi : InstanceRecord.ofRecord record cls c = .ok i) (hlen : ts.length = record.tokens.length) :
    ({ i with record := { i.record with tokens := ts } } : InstanceRecord).Sound := by
  obtain ⟨hkind, -, hfree, -, htotal, hfit, -, hheap⟩ := Record.ofWire_eq_ok hwire
  obtain ⟨rfl, -, hhost, hns⟩ := InstanceRecord.ofRecord_eq_ok.1 hi
  have hsound : (⟨record, cls⟩ : InstanceRecord).Sound := by
    refine ⟨⟨hfit, htotal, hheap⟩, hkind, ?_, hhost, hns⟩
    simpa [Record.totalSize, hfree] using htotal
  exact hsound.withTokens hlen

end InstanceRecord

end CimBroker.Stream
