import CimBroker.Proofs.Stream.WellFormed

/-!
# Writing one slot of an arena

Each mutator of an arena rewrites one slot of one instance: a string slot
(`setProperty`, and `setValue`, `setHostName` and `setNamespace` through
`updateInstance`) or a reference slot (`setReference`). On a well-formed
arena (`Arena.Inv`) a successful call is exact:

* the slot written reads back what was written, through the record and
  through the instance's own getter;
* every other string slot and every reference slot of the instance, every
  other instance and every class read as before;
* a string is appended to the heap, so the bytes in use grow by its length
  (by nothing for null and for a reference), and the buffer grows only when
  its free tail is shorter than the string, by the shortfall and by at least
  `heapGrowth` bytes.

The model is functional: a call that fails returns its error and no arena,
so the arena the caller holds is the one it made the call on.

The string slots need the invariant: a slot reads from the heap, and the
heap only grows, so a slot that lay in the heap reads the same bytes after
a write elsewhere.

## Main results

* `Record.setString_sizes` — the exact bytes in use and buffer size after
  setting a string.
* `InstanceRecord.StringWritten`, `InstanceRecord.RefWritten` — one string
  slot, or one reference slot, rewritten and nothing else.
* `Arena.Inv.writesExactly` — every mutator of a well-formed arena does
  exactly that (`Arena.WritesExactly`).
-/

namespace CimBroker.Stream

/-- The bytes a string write appends to the heap: those of the value, none
for null. -/
def storedLength (v : Option (List UInt8)) : Nat := (v.map List.length).getD 0

@[simp] theorem storedLength_none : storedLength none = 0 := rfl

@[simp] theorem storedLength_some (bs : List UInt8) : storedLength (some bs) = bs.length := rfl

/-! ## Records -/

namespace Record

variable {r r' : Record}

/-- Reserving room leaves a record whose free tail holds `n` bytes alone,
and grows a shorter one by the shortfall, and by at least `heapGrowth`. -/
theorem reserve_eq_ok_free {n : Nat} (h : r.reserve n = .ok r') :
    r' = { r with free := if r.free < n then r.free + max (n - r.free) heapGrowth else r.free } := by
  unfold reserve at h
  split at h
  · rename_i hlt
    simp only at h
    split at h
    · cases h
    · cases h
      simp [hlt]
  · rename_i hge
    cases h
    simp [hge]

/-- Appending to the heap takes its bytes from the free tail, after
reserving room for them. -/
theorem appendHeap_eq_ok_free {v : List UInt8} {off : Nat} (h : r.appendHeap v = .ok (off, r')) :
    r' = { r with heap := r.heap ++ v,
                  free := (if r.free < v.length then r.free + max (v.length - r.free) heapGrowth else r.free) -
                    v.length } := by
  obtain ⟨r₀, hres, h⟩ := Except.bind_eq_ok.1 h
  split at h
  · cases h
  · cases h
    obtain rfl := reserve_eq_ok_free hres
    rfl

/-- **The sizes after setting a string.** The bytes in use grow by the bytes
stored, and the buffer grows only when its free tail is shorter than them,
by the shortfall and by at least `heapGrowth`. -/
theorem setString_sizes {k : Nat} {v : Option (List UInt8)} (h : r.setString k v = .ok r') :
    r'.inUse = r.inUse + storedLength v ∧
      r'.totalSize = if r.free < storedLength v then r.totalSize + max (storedLength v - r.free) heapGrowth
        else r.totalSize := by
  unfold setString at h
  split at h
  · split at h
    · cases h
      simp [inUse, totalSize, fixedSize]
    · split at h
      · cases h
      · rename_i bytes _
        obtain ⟨⟨off, r₁⟩, happ, h⟩ := Except.bind_eq_ok.1 h
        cases h
        obtain rfl := appendHeap_eq_ok_free happ
        simp only [inUse, totalSize, fixedSize, storedLength_some, List.length_set, List.length_append]
        by_cases hlt : r.free < bytes.length <;> simp only [hlt, ↓reduceIte] <;> omega
  · cases h

end Record

/-! ## Instances -/

namespace InstanceRecord

variable {r r' : InstanceRecord}

/-- `r'` is instance `r` with string slot `k` set to `v`: the slot reads
back `v`, every other string slot and every reference slot reads as before,
the class link stays, the heap grew by the bytes stored and the buffer only
by what its free tail lacked. -/
structure StringWritten (r : InstanceRecord) (k : Nat) (v : Option (List UInt8)) (r' : InstanceRecord) :
    Prop where
  cls_eq : r'.cls = r.cls
  string_self : r'.record.string k = v
  string_ne : ∀ j ≠ k, r'.record.string j = r.record.string j
  extRef_eq : ∀ slot, r'.extRef slot = r.extRef slot
  inUse_eq : r'.record.inUse = r.record.inUse + storedLength v
  totalSize_eq : r'.record.totalSize =
    if r.record.free < storedLength v then r.record.totalSize + max (storedLength v - r.record.free) heapGrowth
    else r.record.totalSize

/-- `r'` is instance `r` with reference slot `slot` pointed at `target`:
that slot names `target`, every other reference slot and every string slot
reads as before, the class link stays and the buffer keeps its sizes. -/
structure RefWritten (r : InstanceRecord) (slot : Nat) (target : Option InstanceId) (r' : InstanceRecord) :
    Prop where
  cls_eq : r'.cls = r.cls
  extRef_self : r'.extRef slot = target
  extRef_ne : ∀ s ≠ slot, r'.extRef s = r.extRef s
  string_eq : ∀ j, r'.record.string j = r.record.string j
  inUse_eq : r'.record.inUse = r.record.inUse
  totalSize_eq : r'.record.totalSize = r.record.totalSize

/-- Setting a string slot of the record, whose slots lie in its heap,
rewrites that slot of the instance and nothing else. -/
theorem stringWritten_of_setString {k : Nat} {v : Option (List UInt8)} {rec : Record}
    (hin : r.record.SlotsInHeap) (h : r.record.setString k v = .ok rec) :
    r.StringWritten k v { r with record := rec } := by
  obtain ⟨-, -, htok, -, -⟩ := Record.setString_frame h
  obtain ⟨hinUse, htotal⟩ := Record.setString_sizes h
  exact ⟨rfl, Record.string_setString_self h, fun j hj => Record.string_setString_of_ne h hj hin,
    fun slot => by simp [extRef, Record.token, htok], hinUse, htotal⟩

theorem valueCount_setString {k : Nat} {v : Option (List UInt8)} {rec : Record}
    (h : r.record.setString k v = .ok rec) : ({ r with record := rec } : InstanceRecord).valueCount = r.valueCount := by
  obtain ⟨-, -, -, hlen, -⟩ := Record.setString_frame h
  simp [valueCount, Record.fieldCount, hlen]

/-- A successful `setValue` rewrites the value's slot, which reads back
through `value`. -/
theorem setValue_written {index : Nat} {v : Option (List UInt8)} (hin : r.record.SlotsInHeap)
    (h : r.setValue index v = .ok r') : r.StringWritten (2 + index) v r' ∧ r'.value index = v := by
  unfold setValue at h
  split at h
  · rename_i hindex
    obtain ⟨rec, hrec, rfl⟩ := Except.map_eq_ok.1 h
    have hw := stringWritten_of_setString hin hrec
    refine ⟨hw, ?_⟩
    rw [value, valueCount_setString hrec, if_pos hindex]
    exact hw.string_self
  · cases h

/-- A successful `setHostName` rewrites slot 0, which reads back as the
host name. -/
theorem setHostName_written {host : String} (hin : r.record.SlotsInHeap) (h : r.setHostName host = .ok r') :
    r.StringWritten 0 (some (ClassRecord.utf8 host)) r' ∧ r'.hostName = some host := by
  obtain ⟨rec, hrec, rfl⟩ := Except.map_eq_ok.1 h
  exact ⟨stringWritten_of_setString hin hrec, Record.text_setString_utf8 hrec⟩

/-- A successful `setNamespace` rewrites slot 1, which reads back as the
namespace. -/
theorem setNamespace_written {ns : String} (hin : r.record.SlotsInHeap) (h : r.setNamespace ns = .ok r') :
    r.StringWritten 1 (some (ClassRecord.utf8 ns)) r' ∧ r'.ns = some ns := by
  obtain ⟨rec, hrec, rfl⟩ := Except.map_eq_ok.1 h
  exact ⟨stringWritten_of_setString hin hrec, Record.text_setString_utf8 hrec⟩

/-- A successful `setExtRef` rewrites one reference slot and nothing else:
the tokens sit in the fixed region, which keeps its size. -/
theorem setExtRef_written {slot : Nat} {target : Option InstanceId} (hin : r.record.SlotsInHeap)
    (h : r.setExtRef slot target = .ok r') : r.RefWritten slot target r' := by
  obtain ⟨rec, hrec, rfl⟩ := Except.map_eq_ok.1 h
  obtain ⟨hslot, rfl⟩ := Record.setToken_eq_ok hrec
  have hfixed : ({ r.record with tokens := r.record.tokens.set slot ((target.map InstanceId.token).getD 0) } :
      Record).fixedSize = r.record.fixedSize := by
    simp [Record.fixedSize]
  refine ⟨rfl, ?_, fun s hs => ?_, Record.string_congr rfl hfixed rfl hin, by simp [Record.inUse, hfixed],
    by simp [Record.totalSize, Record.inUse, hfixed]⟩
  · cases target with
    | none => simp [extRef, Record.token, List.getD_eq_getElem?_getD, hslot, InstanceId.ofToken?]
    | some t => simp [extRef, Record.token, List.getD_eq_getElem?_getD, hslot]
  · simp [extRef, Record.token, List.getD_eq_getElem?_getD, List.getElem?_set_ne (Ne.symm hs)]

end InstanceRecord

/-! ## Arenas -/

namespace Arena

variable {a a' : Arena}

/-- `a'` is arena `a` with instance `i`, there before and after, replaced by
a record that `W` relates to the old one; every other instance and every
class is as it was. -/
structure Replaced (a : Arena) (i : InstanceId) (W : InstanceRecord → InstanceRecord → Prop) (a' : Arena) :
    Prop where
  written : ∃ r r', a.inst i = some r ∧ a'.inst i = some r' ∧ W r r'
  inst_ne : ∀ x ≠ i, a'.inst x = a.inst x
  classes_eq : a'.classes = a.classes

/-- A successful update replaces the instance by what the update made of
it. -/
theorem replaced_of_updateInstance {i : InstanceId} {f : InstanceRecord → Except StreamError InstanceRecord}
    {W : InstanceRecord → InstanceRecord → Prop} (h : a.updateInstance i f = some (.ok a'))
    (hf : ∀ r r', a.inst i = some r → f r = .ok r' → W r r') : a.Replaced i W a' := by
  obtain ⟨hk, r', hr', rfl⟩ := updateInstance_eq_ok h
  have hinst : a.inst i = some a.instances[i.index] := by simp [inst, hk]
  refine ⟨⟨_, r', hinst, by simp [inst, hk], hf _ _ hinst hr'⟩, fun x hx => ?_, rfl⟩
  have hne : i.index ≠ x.index := fun h' => hx (by cases x; cases i; simp_all)
  simp [inst, hne]

/-- A replacement that keeps the class link keeps the class of every
instance. -/
theorem Replaced.classOf_eq {i : InstanceId} {W : InstanceRecord → InstanceRecord → Prop}
    (h : a.Replaced i W a') (hW : ∀ r r', W r r' → r'.cls = r.cls) (x : InstanceId) :
    a'.classOf x = a.classOf x := by
  by_cases hx : x = i
  · subst hx
    obtain ⟨r, r', hr, hr', hw⟩ := h.written
    simp [classOf, cls, hr, hr', hW r r' hw, h.classes_eq]
  · simp [classOf, cls, h.inst_ne x hx, h.classes_eq]

/-- `setProperty` is `setValue` at the index the instance's class gives the
name. -/
theorem setProperty_lookup {i : InstanceId} {name : String} {v : Option (List UInt8)}
    (h : a.setProperty i name v = .ok a') :
    ∃ c index, a.classOf i = some c ∧ c.propertyIndex name = some index ∧
      a.updateInstance i (·.setValue index v) = some (.ok a') := by
  unfold setProperty at h
  split at h
  · cases h
  · rename_i c hc
    split at h
    · cases h
    · rename_i index hindex
      split at h
      · rename_i result hresult
        exact ⟨c, index, hc, hindex, hresult.trans (congrArg some h)⟩
      · cases h

/-- What each mutator of arena `a` does when it succeeds: it rewrites one
slot of one instance, as `StringWritten` and `RefWritten` say, the slot reads
back through the instance's getter (a property through every name that
finds the same property), and every other instance and every class stays as
it was. -/
structure WritesExactly (a : Arena) : Prop where
  setProperty : ∀ i name v a', a.setProperty i name v = .ok a' →
    ∃ c index, a.classOf i = some c ∧ c.propertyIndex name = some index ∧
      a.Replaced i (·.StringWritten (2 + index) v ·) a' ∧
      ∀ n, c.propertyIndex n = some index → a'.property i n = v
  setValue : ∀ i index v a', a.updateInstance i (·.setValue index v) = some (.ok a') →
    a.Replaced i (·.StringWritten (2 + index) v ·) a' ∧ (a'.inst i).bind (·.value index) = v
  setHostName : ∀ i host a', a.updateInstance i (·.setHostName host) = some (.ok a') →
    a.Replaced i (·.StringWritten 0 (some (ClassRecord.utf8 host)) ·) a' ∧
      (a'.inst i).bind (·.hostName) = some host
  setNamespace : ∀ i ns a', a.updateInstance i (·.setNamespace ns) = some (.ok a') →
    a.Replaced i (·.StringWritten 1 (some (ClassRecord.utf8 ns)) ·) a' ∧
      (a'.inst i).bind (·.ns) = some ns
  setReference : ∀ i slot target a', a.setReference i slot target = .ok a' →
    a.Replaced i (·.RefWritten slot target ·) a'

/-- An update by a setter whose result reads back replaces the instance by
its written form, and the written slot reads back in the new arena. -/
theorem Inv.update_written (hi : a.Inv) {i : InstanceId} {f : InstanceRecord → Except StreamError InstanceRecord}
    {W : InstanceRecord → InstanceRecord → Prop} {get : InstanceRecord → Option α} {x : Option α}
    (h : a.updateInstance i f = some (.ok a'))
    (hf : ∀ r r', r.record.SlotsInHeap → f r = .ok r' → W r r' ∧ get r' = x) :
    a.Replaced i W a' ∧ (a'.inst i).bind get = x := by
  have hsound (r : InstanceRecord) (hr : a.inst i = some r) : r.record.SlotsInHeap :=
    (hi.instances_sound r (Array.mem_of_getElem? hr)).record.slotsInHeap
  have hrep := replaced_of_updateInstance h fun r r' hr hr' => (hf r r' (hsound r hr) hr').1
  obtain ⟨hk, r', hr', rfl⟩ := updateInstance_eq_ok h
  have hinst : a.inst i = some a.instances[i.index] := by simp [inst, hk]
  refine ⟨hrep, ?_⟩
  simp only [inst, Array.getElem?_setIfInBounds_self_of_lt hk, Option.bind_some]
  exact (hf _ _ (hsound _ hinst) hr').2

/-- **The mutators of a well-formed arena are exact.** On an arena with the
invariant, each successful call of `setProperty`, `setValue`,
`setHostName`, `setNamespace` or `setReference` rewrites exactly the slot it
names, which reads back what was written, with the heap and buffer sizes the
write accounts for, and leaves every other slot, instance and class as it
was. -/
theorem Inv.writesExactly (hi : a.Inv) : a.WritesExactly := by
  have hsetValue : ∀ i index v a', a.updateInstance i (·.setValue index v) = some (.ok a') →
      a.Replaced i (·.StringWritten (2 + index) v ·) a' ∧ (a'.inst i).bind (·.value index) = v :=
    fun _ _ _ _ h => hi.update_written h fun _ _ hin hr => InstanceRecord.setValue_written hin hr
  refine ⟨fun i name v a' h => ?_, hsetValue,
    fun _ _ _ h => hi.update_written h fun _ _ hin hr => InstanceRecord.setHostName_written hin hr,
    fun _ _ _ h => hi.update_written h fun _ _ hin hr => InstanceRecord.setNamespace_written hin hr,
    fun i slot target a' h => ?_⟩
  · -- the property is read back through the same class and index
    obtain ⟨c, index, hc, hindex, hupd⟩ := setProperty_lookup h
    obtain ⟨hrep, hvalue⟩ := hsetValue i index v a' hupd
    refine ⟨c, index, hc, hindex, hrep, fun n hn => ?_⟩
    have hclass := hrep.classOf_eq (fun _ _ hw => hw.cls_eq) i
    simp only [property, hclass, hc, Option.bind_eq_bind, Option.bind_some, hn]
    exact hvalue
  · obtain ⟨-, hupd⟩ := setReference_eq_ok h
    exact replaced_of_updateInstance hupd fun r r' hr hr' =>
      InstanceRecord.setExtRef_written
        (hi.instances_sound r (Array.mem_of_getElem? hr)).record.slotsInHeap hr'

/-- An arena of one class and two instances, built by its operations: it
has the invariant, a property of the second instance can be set by a name in
another case, and every mutator of it is exact. -/
theorem pair_arena_writesExactly :
    ∃ a a' : Arena, a.Inv ∧ a.setProperty ⟨1⟩ "SIZE" (some [1, 2]) = .ok a' ∧ a.WritesExactly := by
  obtain ⟨⟨a, a'⟩, h⟩ := Except.exists_eq_ok_of_isOk (do
      let c ← ClassRecord.new "Disk" "root/cimv2" ["Size"]
      let first ← (Arena.empty.addClass c).2.addInstance ⟨0⟩ 0
      let second ← first.2.addInstance ⟨0⟩ 1
      let a' ← second.2.setProperty ⟨1⟩ "SIZE" (some [1, 2])
      pure (second.2, a')) (by decide +kernel)
  obtain ⟨c, hc, h⟩ := Except.bind_eq_ok.1 h
  obtain ⟨⟨_, a₁⟩, hadd₁, h⟩ := Except.bind_eq_ok.1 h
  obtain ⟨⟨_, a₂⟩, hadd₂, h⟩ := Except.bind_eq_ok.1 h
  dsimp only at hadd₂ h
  obtain ⟨a₃, hset, h⟩ := Except.bind_eq_ok.1 h
  cases h
  have hinv : a.Inv :=
    (Reachable.step (.step (.step .empty (.addClass Arena.empty hc)) (.addInstance hadd₁)) (.addInstance hadd₂)).inv
  exact ⟨a, a', hinv, hset, hinv.writesExactly⟩

end Arena

end CimBroker.Stream
