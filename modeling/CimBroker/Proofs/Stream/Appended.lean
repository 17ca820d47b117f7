import CimBroker.Proofs.Stream.DecodedGraph

/-!
# What a decode appends to an arena

`deserialize` reads a stream into any arena, not only the empty one, and it
accepts bytes that no writer produced: reference tables may repeat tokens,
name unrelated positions or go unused. Whatever it accepts, what it appends
is a well-linked block (`Appended`):

* as many instances as the stream has class-resolution entries, each
  referencing only instances appended before it, so the appended references
  form no cycle;
* each linked to an appended class with as many properties as it has values,
  with no referrers yet and the free bytes of a decoded instance;
* each appended class counting exactly the appended instances linked to it;
* and the instances returned are, in increasing order, exactly those no
  appended instance references.

The counts are exact, never saturated, because a class-resolution table has
fewer than `2 ^ 32` entries: its count is a 32-bit word.

## Main results

* `readInstances_forall` — a property that every step of the instance pass
  gives its instance holds of every instance a successful pass decodes.
* `deserialize_appends` — the description above, for every arena and every
  accepted stream.
-/

namespace CimBroker.Stream

/-! ## The number of class-resolution entries -/

/-- A 32-bit word is below `2 ^ 32`. -/
theorem Reader.u32_lt {r r' : Reader} {v : Nat} (h : r.u32 = .ok (v, r')) : v < 2 ^ 32 := by
  obtain ⟨⟨bs, r''⟩, htake, h⟩ := Except.bind_eq_ok.1 h
  cases h
  obtain ⟨-, rfl, -⟩ := Reader.take_eq_ok htake
  exact Record.readLE_take_lt 4 r.rest

/-- Reading `n` entries pushes `n` entries. -/
theorem readEntries_size : ∀ (n : Nat) (r : Reader) (acc : Array Entry) {entries : Array Entry} {r' : Reader},
    readEntries n r acc = .ok (entries, r') → entries.size = acc.size + n
  | 0, _, _, _, _, h => by
    cases h
    rfl
  | n + 1, r, acc, _, _, h => by
    rw [readEntries.eq_2] at h
    obtain ⟨⟨token, r₁⟩, -, h⟩ := Except.bind_eq_ok.1 h
    obtain ⟨⟨index, r₂⟩, -, h⟩ := Except.bind_eq_ok.1 h
    rw [readEntries_size n r₂ _ h, Array.size_push]
    omega

/-- A table holds as many entries as its 32-bit count says. -/
theorem readTable_size_lt {r r' : Reader} {entries : Array Entry} (h : readTable r = .ok (entries, r')) :
    entries.size < 2 ^ 32 := by
  simp only [readTable] at h
  obtain ⟨⟨count, r₁⟩, hcount, h⟩ := Except.bind_eq_ok.1 h
  split at h
  · cases h
  · rw [readEntries_size count r₁ #[] h]
    simpa using Reader.u32_lt hcount

/-- A stream has fewer than `2 ^ 32` class-resolution entries. -/
theorem readFront_entries_lt {data : List UInt8} {classes : Array ClassRecord} {entries refs : Array Entry}
    {r : Reader} (h : readFront data = .ok (classes, entries, refs, r)) : entries.size < 2 ^ 32 := by
  simp only [readFront] at h
  obtain ⟨r₁, -, h⟩ := Except.bind_eq_ok.1 h
  obtain ⟨⟨count, r₂⟩, -, h⟩ := Except.bind_eq_ok.1 h
  obtain ⟨⟨cs, r₃⟩, -, h⟩ := Except.bind_eq_ok.1 h
  obtain ⟨⟨es, r₄⟩, hes, h⟩ := Except.bind_eq_ok.1 h
  split at h
  · cases h
  · obtain ⟨⟨rs, r₅⟩, -, h⟩ := Except.bind_eq_ok.1 h
    cases h
    exact readTable_size_lt hes

/-! ## Every instance of the pass -/

section Pass

variable {classes : Array ClassRecord} {refs : Array Entry} {classBase base n : Nat}

/-- **A property of every decoded instance.** When each step of the pass
gives the instance it decodes at its position a property `P`, every
instance of a successful pass has it. The induction is on the entries still
to read, with the instances decoded so far all satisfying `P`. -/
theorem readInstances_forall (P : Nat → Decoded classes.size → Prop)
    (hstep : ∀ (position : Nat) (e : Entry) (bytes : List UInt8) (record : Record) (i : InstanceRecord)
      (us : List Nat) (hk : e.index < classes.size),
      Record.ofWire bytes instanceSlack .instanceRecord = .ok record →
      InstanceRecord.ofRecord record ⟨classBase + e.index⟩ classes[e.index] = .ok i →
      i.record.tokens.mapM (resolveToken refs position) = .ok us →
      P position ⟨{ i with record := { i.record with tokens := us.map (shiftToken base) } }, ⟨e.index, hk⟩⟩) :
    ∀ (entries : List Entry) (position : Nat) (h : position + entries.length = n) (r : Reader)
      (acc : Array (Decoded classes.size)) (marks : Vector Nat n) {decoded : Array (Decoded classes.size)}
      {marks' : Vector Nat n} {r' : Reader},
      readInstances classes refs classBase base entries position h r acc marks = .ok (decoded, marks', r') →
      acc.size = position → (∀ j (hj : j < acc.size), P j acc[j]) → ∀ j (hj : j < decoded.size), P j decoded[j]
  | [], _, _, _, acc, _, _, _, _, hread, _, hacc => by
    cases hread
    exact hacc
  | e :: es, position, h, r, acc, marks, _, _, _, hread, hsize, hacc => by
    obtain ⟨bytes, r₁, record, i, us, hk, -, hwire, hi, hus, hread⟩ := readInstances_cons_eq_ok hread
    refine readInstances_forall P hstep es _ _ r₁ _ _ hread (by simp [hsize]) fun j hj => ?_
    rw [Array.size_push] at hj
    by_cases hjs : j < acc.size
    · rw [Array.getElem_push_lt hjs]
      exact hacc j hjs
    · -- the instance just pushed sits at the pass's position
      obtain rfl : j = acc.size := by omega
      rw [Array.getElem_push_eq, hsize]
      exact hstep position e bytes record i us hk hwire hi hus

/-- Every instance the pass decodes comes straight from its block: it has
the free bytes of a decoded instance and no referrers yet. -/
theorem readInstances_fresh {entries : List Entry} {h : 0 + entries.length = n} {r r' : Reader}
    {marks marks' : Vector Nat n} {decoded : Array (Decoded classes.size)}
    (hread : readInstances classes refs classBase base entries 0 h r #[] marks = .ok (decoded, marks', r')) :
    ∀ j (hj : j < decoded.size), decoded[j].inst.record.free = instanceSlack ∧ decoded[j].inst.record.refCount = 0 :=
  readInstances_forall (fun _ d => d.inst.record.free = instanceSlack ∧ d.inst.record.refCount = 0)
    (fun _ _ _ _ _ _ _ hwire hi _ => by
      obtain ⟨-, hrc, hfree, -⟩ := Record.ofWire_eq_ok hwire
      obtain ⟨rfl, -⟩ := InstanceRecord.ofRecord_eq_ok.1 hi
      exact ⟨hfree, hrc⟩)
    _ _ _ _ _ _ hread rfl (by simp)

end Pass

/-! ## What a decode appends -/

/-- A scan lists the positions it keeps in increasing order. -/
theorem pairwise_lt_filter_zipIdx (l : List Nat) : ((l.zipIdx.filter (·.1 ≠ 0)).map Prod.snd).Pairwise (· < ·) := by
  have hall : (l.zipIdx.map Prod.snd).Pairwise (· < ·) := by
    rw [List.zipIdx_map_snd]
    exact List.pairwise_lt_range'
  exact hall.sublist ((List.filter_sublist).map Prod.snd)

/-- **The scan of the marks keeps the unreferenced positions.** After the
pass, a position's mark is cleared exactly when a decoded instance references
the instance there; the tokens it started from are never zero. -/
theorem mem_scan_iff {k n base p : Nat} {tokens marks : Vector Nat n} {new : List (Decoded k)}
    (hmarks : ∀ p (hp : p < n), marks[p] =
      if ∃ d ∈ new, (⟨base + p⟩ : InstanceId) ∈ d.inst.references then 0 else tokens[p])
    (hne : ∀ p (hp : p < n), tokens[p] ≠ 0) :
    p ∈ (marks.toList.zipIdx.filter (·.1 ≠ 0)).map Prod.snd ↔
      p < n ∧ ∀ i ∈ new.map (·.inst), ∀ slot, i.extRef slot ≠ some ⟨base + p⟩ := by
  rw [mem_filter_zipIdx]
  constructor
  · rintro ⟨hp, hp0⟩
    have hpn : p < n := by simpa using hp
    rw [Vector.getElem_toList, hmarks p hpn] at hp0
    refine ⟨hpn, fun i hi slot href => hp0 ?_⟩
    obtain ⟨d, hd, rfl⟩ := List.mem_map.1 hi
    rw [if_pos ⟨d, hd, InstanceRecord.mem_references_iff.2 (Arena.InstanceRecord.extRef_eq_some href)⟩]
  · rintro ⟨hp, hunref⟩
    refine ⟨by simpa using hp, ?_⟩
    rw [Vector.getElem_toList, hmarks p hp, if_neg]
    · exact hne p hp
    · rintro ⟨d, hd, href⟩
      obtain ⟨slot, -, hslot⟩ := List.mem_filterMap.1 href
      exact hunref d.inst (List.mem_map_of_mem hd) slot hslot

/-- What a decode into an arena of `classBase` classes and `base` instances
appends, as classes `newClasses` and instances `newInsts`, with top-level
list `ids`, for a stream of `n` class-resolution entries. -/
structure Appended (classBase base n : Nat) (newClasses : List ClassRecord) (newInsts : List InstanceRecord)
    (ids : List InstanceId) : Prop where
  length_eq : newInsts.length = n
  /-- References point back into the appended block. -/
  refs_before : ∀ p (hp : p < newInsts.length) slot t, newInsts[p].extRef slot = some t →
    ∃ q < p, t = ⟨base + q⟩
  linked : ∀ p (hp : p < newInsts.length), ∃ c, ∃ hc : c < newClasses.length,
    newInsts[p].cls = ⟨classBase + c⟩ ∧ newInsts[p].valueCount = newClasses[c].propertyCount
  fresh : ∀ i ∈ newInsts, i.record.free = instanceSlack ∧ i.record.refCount = 0
  refCount_eq : ∀ c (hc : c < newClasses.length),
    newClasses[c].refCount = newInsts.countP (·.cls = ⟨classBase + c⟩)
  sorted : (ids.map (·.index)).Pairwise (· < ·)
  mem_ids : ∀ x, x ∈ ids ↔ ∃ p < newInsts.length, x = ⟨base + p⟩ ∧
    ∀ i ∈ newInsts, ∀ slot, i.extRef slot ≠ some x

/-- **What a successful decode appends**, whatever bytes it was given and
whatever the arena held: the stream's classes and one instance per
class-resolution entry, forming an `Appended` block after the arena's own
classes and instances. -/
theorem deserialize_appends {data : List UInt8} {B B' : Arena} {ids : List InstanceId}
    (h : deserialize data B = .ok (ids, B')) :
    ∃ (classes : Array ClassRecord) (entries refs : Array Entry) (r : Reader)
      (newClasses : List ClassRecord) (newInsts : List InstanceRecord),
      readFront data = .ok (classes, entries, refs, r) ∧ B' = B.commit newClasses newInsts ∧
        newClasses.length = classes.size ∧
        Appended B.classCount B.instanceCount entries.size newClasses newInsts ids := by
  obtain ⟨classes, entries, refs, r, decoded, marks, r', hfront, hread, -, htops, hB'⟩ := deserialize_eq_ok h
  obtain ⟨new, hnew, hlen, hmarks, -⟩ := readInstances_eq_ok _ _ _ _ _ _ hread
  simp only [List.nil_append] at hnew
  subst hnew
  have hdec := readInstances_decodedAt classes refs _ _ entries.toList 0 _ r #[] _ hread (by simp) (by simp)
  have hfresh := readInstances_fresh hread
  have hsz : decoded.size = entries.size := by simpa using hlen
  -- the stream's classes start with no references counted
  have hzero (c : Nat) (hc : c < classes.size) : classes[c].refCount = 0 :=
    (readFront_sound hfront _ (Array.getElem_mem hc)).2
  refine ⟨classes, entries, refs, r, (countReferences classes decoded).toList, decoded.toList.map (·.inst),
    hfront, hB', by simp, ⟨by simp [hsz], ?back, ?linked, ?fresh, ?count, ?sorted, ?tops⟩⟩
  case back =>
    intro p hp slot t ht
    simp only [List.length_map, Array.length_toList] at hp
    simp only [List.getElem_map, Array.getElem_toList] at ht
    have hbefore := (hdec p hp).refs_before t.token (Arena.InstanceRecord.extRef_eq_some ht)
      (by simp [InstanceId.token])
    simp only [InstanceId.token, Nat.add_sub_cancel] at hbefore
    refine ⟨t.index - B.instanceCount, by omega, ?_⟩
    rcases t with ⟨t⟩
    simp only [InstanceId.mk.injEq] at hbefore ⊢
    omega
  case linked =>
    intro p hp
    simp only [List.length_map, Array.length_toList] at hp
    obtain ⟨-, hcls, hvc, -⟩ := hdec p hp
    refine ⟨decoded[p].classPos, by simp, ?_⟩
    simp only [List.getElem_map, Array.getElem_toList, Vector.getElem_toList]
    rw [countReferences_getElem classes decoded _ _ (hzero _ _)]
    exact ⟨hcls, hvc⟩
  case fresh =>
    intro i hi
    obtain ⟨d, hd, rfl⟩ := List.mem_map.1 hi
    obtain ⟨p, hp, rfl⟩ := List.getElem_of_mem hd
    simpa using hfresh p (by simpa using hp)
  case count =>
    intro c hc
    simp only [Vector.length_toList] at hc
    simp only [Vector.getElem_toList]
    rw [countReferences_getElem classes decoded c hc (hzero c hc)]
    -- an instance is linked to appended class `c` exactly when it was checked against it
    have hcount : decoded.toList.countP (·.classPos.val = c) =
        (decoded.toList.map (·.inst)).countP (·.cls = ⟨B.classCount + c⟩) := by
      rw [List.countP_map]
      refine List.countP_congr fun d hd => ?_
      obtain ⟨p, hp, rfl⟩ := List.getElem_of_mem hd
      simp [(hdec p (by simpa using hp)).cls_eq]
    have hle : decoded.toList.countP (·.classPos.val = c) ≤ maxU32 := by
      have := List.countP_le_length (l := decoded.toList) (p := (·.classPos.val = c))
      have := readFront_entries_lt hfront
      simp only [Array.length_toList, maxU32] at *
      omega
    simp only [ClassRecord.refCount]
    rw [Nat.min_eq_right hle, hcount]
  case sorted =>
    rw [htops, List.map_map]
    have hindex : ((·.index) ∘ fun (x : Nat × Nat) => (⟨B.instanceCount + x.2⟩ : InstanceId)) =
        (B.instanceCount + ·) ∘ Prod.snd := rfl
    rw [hindex, ← List.map_map]
    exact (pairwise_lt_filter_zipIdx _).map _ fun a b hab => by omega
  case tops =>
    -- the top-level instances are those at the positions the scan keeps
    intro x
    have hne : ∀ p (hp : p < (entries.map (·.token)).size), (entries.map (·.token)).toVector[p] ≠ 0 :=
      fun p hp => by simpa using readFront_token_ne_zero hfront _ (Array.getElem_mem (by simpa using hp))
    have htops' : ids = ((marks.toList.zipIdx.filter (·.1 ≠ 0)).map Prod.snd).map
        (fun p => (⟨B.instanceCount + p⟩ : InstanceId)) := by
      rw [htops, List.map_map]
      rfl
    rw [htops', List.mem_map]
    simp only [List.length_map, Array.length_toList]
    constructor
    · rintro ⟨p, hp, rfl⟩
      obtain ⟨hpn, hunref⟩ := (mem_scan_iff hmarks hne).1 hp
      exact ⟨p, by simpa [hsz] using hpn, rfl, hunref⟩
    · rintro ⟨p, hp, rfl, hunref⟩
      exact ⟨p, (mem_scan_iff hmarks hne).2 ⟨by simpa [hsz] using hp, hunref⟩, rfl⟩

/-- One class and two instances, the second referencing the first, written
from the second and read back into the empty arena: the decode appends an
`Appended` block. -/
theorem serialized_pair_appends :
    ∃ (data : List UInt8) (ids : List InstanceId) (B' : Arena), deserialize data Arena.empty = .ok (ids, B') ∧
      ∃ (classes : Array ClassRecord) (entries refs : Array Entry) (r : Reader)
        (newClasses : List ClassRecord) (newInsts : List InstanceRecord),
        readFront data = .ok (classes, entries, refs, r) ∧ B' = Arena.empty.commit newClasses newInsts ∧
          newClasses.length = classes.size ∧
          Appended Arena.empty.classCount Arena.empty.instanceCount entries.size newClasses newInsts ids := by
  -- the kernel runs the construction, the writer and the reader
  obtain ⟨⟨data, ids, B'⟩, h⟩ := Except.exists_eq_ok_of_isOk (do
      let c ← ClassRecord.new "Disk" "root/cimv2" ["Size"]
      let sys ← (Arena.empty.addClass c).2.addInstance ⟨0⟩ 0
      let disk ← sys.2.addInstance ⟨0⟩ 1
      let a ← disk.2.setReference disk.1 0 (some sys.1)
      let bytes ← serialize a [disk.1]
      let decoded ← deserialize bytes Arena.empty
      pure (bytes, decoded)) (by decide +kernel)
  obtain ⟨c, -, h⟩ := Except.bind_eq_ok.1 h
  obtain ⟨⟨sys, a₁⟩, -, h⟩ := Except.bind_eq_ok.1 h
  obtain ⟨⟨d, a₂⟩, -, h⟩ := Except.bind_eq_ok.1 h
  obtain ⟨a₃, -, h⟩ := Except.bind_eq_ok.1 h
  obtain ⟨bytes, -, h⟩ := Except.bind_eq_ok.1 h
  obtain ⟨⟨ids', B''⟩, hdes, h⟩ := Except.bind_eq_ok.1 h
  cases h
  exact ⟨_, _, _, hdes, deserialize_appends hdes⟩

end CimBroker.Stream
