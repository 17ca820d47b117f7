import CimBroker.Proofs.Stream.Relocation
import CimBroker.Proofs.Stream.Decoded

/-!
# The streams the decoder accepts are prefix-free

The decoder reads its input front to back. Every read takes a number of
bytes known from what was read before it and first checks that they are
there, and every check of a record, a table or a reference looks only at
bytes already read. So a run that accepts a stream makes the same reads
whatever bytes follow it, and a run on a proper prefix of it makes the same
reads until one of them finds its bytes missing.

`ReadsExactly p pos used res` says this of a reader function `p` started at
position `pos`: followed by any bytes, `used` gives the result `res` of the
reader left at those bytes, and cut short anywhere it fails as truncated.
`Consumes p r res r'` says that the run of `p` from `r` that stopped at `r'`
read exactly the bytes between them in that way. Reads in sequence read the
concatenation of what each read (`Consumes.bind`), so every pass of the
decoder consumes exactly what it read, by induction over its records.

## Main results

* `readFront_consumes`, `readInstances_consumes` — the two passes of the
  decoder read exactly the bytes they consume.
* `deserialize_prefix_free` — a proper prefix of an accepted stream is
  refused as truncated, and an accepted stream followed by more bytes is
  refused for exactly those trailing bytes, whatever the arena.
-/

namespace CimBroker.Stream

/-- A run that fails because the input ran out. -/
def Truncates {β : Type} (x : Except StreamError β) : Prop :=
  ∃ pos needed left, x = .error (.truncated pos needed left)

theorem Truncates.bind {α β : Type} {x : Except StreamError α} (h : Truncates x) (f : α → Except StreamError β) :
    Truncates (x >>= f) := by
  obtain ⟨pos, needed, left, rfl⟩ := h
  exact ⟨pos, needed, left, rfl⟩

/-- Reading with `p` from position `pos` takes exactly the bytes `used`:
followed by any bytes, they give `res` of the reader left at those bytes,
and cut short they fail as truncated. -/
structure ReadsExactly {β : Type} (p : Reader → Except StreamError β) (pos : Nat) (used : List UInt8)
    (res : Reader → β) : Prop where
  extend : ∀ tail, p ⟨used ++ tail, pos⟩ = .ok (res ⟨tail, pos + used.length⟩)
  cut : ∀ k < used.length, Truncates (p ⟨used.take k, pos⟩)

/-- The run of `p` from `r` that stopped at `r'` read exactly the bytes
between them, and gives `res` of the reader it stops at. -/
def Consumes {β : Type} (p : Reader → Except StreamError β) (r : Reader) (res : Reader → β) (r' : Reader) :
    Prop :=
  ∃ used, r.rest = used ++ r'.rest ∧ r'.pos = r.pos + used.length ∧ ReadsExactly p r.pos used res

namespace Consumes

variable {β γ : Type} {r r₁ r' : Reader}

/-- A step that reads nothing consumes nothing. -/
theorem pure {res : Reader → β} : Consumes (fun r => .ok (res r)) r res r :=
  ⟨[], by simp, by simp, ⟨fun tail => by simp, fun k hk => by simp at hk⟩⟩

/-- **Reads in sequence.** A read of `u₁` followed by a read of `u₂` from
where it stopped reads `u₁ ++ u₂`: cut inside `u₁`, the first read fails;
cut inside `u₂`, the first read succeeds and the second fails. -/
theorem bind {p : Reader → Except StreamError γ} {f : γ → Except StreamError β} {res₁ : Reader → γ}
    {res : Reader → β} (hp : Consumes p r res₁ r₁) (hf : Consumes (fun r => f (res₁ r)) r₁ res r') :
    Consumes (fun r => p r >>= f) r res r' := by
  obtain ⟨u₁, hrest₁, hpos₁, hp⟩ := hp
  obtain ⟨u₂, hrest₂, hpos₂, hf⟩ := hf
  rw [hpos₁] at hf
  refine ⟨u₁ ++ u₂, by rw [hrest₁, hrest₂, List.append_assoc], by simp [hpos₂, hpos₁, Nat.add_assoc],
    ⟨fun tail => ?_, fun k hk => ?_⟩⟩
  · simp only [List.append_assoc, hp.extend, Except.ok_bind, hf.extend, List.length_append, Nat.add_assoc]
  · by_cases hk₁ : k < u₁.length
    · rw [List.take_append_of_le_length (by omega)]
      exact (hp.cut k hk₁).bind f
    · rw [List.take_append, List.take_of_length_le (by omega)]
      simp only [hp.extend, Except.ok_bind]
      exact hf.cut _ (by simp only [List.length_append] at hk; omega)

/-- Reader functions that agree where a run starts consume alike. -/
theorem congr {p q : Reader → Except StreamError β} {res : Reader → β} (h : ∀ bs, p ⟨bs, r.pos⟩ = q ⟨bs, r.pos⟩)
    (hq : Consumes q r res r') : Consumes p r res r' := by
  obtain ⟨used, hrest, hpos, hq⟩ := hq
  exact ⟨used, hrest, hpos, ⟨fun tail => (h _).trans (hq.extend tail), fun k hk => h _ ▸ hq.cut k hk⟩⟩

/-- A check that the rest holds `need` bytes, failing as truncated when it
does not, costs nothing in front of a read of at least `need` bytes: it
passes whatever follows them, and cut short the run is truncated either
way. -/
theorem guard {need : Nat} {e q : Reader → Except StreamError β} {res : Reader → β} (he : ∀ r, Truncates (e r))
    (hq : Consumes q r res r') (hneed : need ≤ r.remaining - r'.remaining) :
    Consumes (fun r => if need > r.remaining then e r else q r) r res r' := by
  obtain ⟨used, hrest, hpos, hq⟩ := hq
  have hlen : need ≤ used.length := by
    simp only [Reader.remaining, hrest, List.length_append] at hneed
    omega
  refine ⟨used, hrest, hpos, ⟨fun tail => ?_, fun k hk => ?_⟩⟩
  · rw [if_neg (by simp only [Reader.remaining_mk, List.length_append]; omega)]
    exact hq.extend tail
  · split
    · exact he _
    · exact hq.cut k hk

/-- A step that reads nothing and succeeds is passed by. -/
theorem ok_bind {α : Type} {x : Except StreamError α} {v : α} {g : α → Reader → Except StreamError β}
    {res : Reader → β} (hx : x = .ok v) (hg : Consumes (g v) r res r') :
    Consumes (fun r => x >>= fun v => g v r) r res r' :=
  congr (fun _ => by rw [hx]; rfl) hg

/-- A check that passes reads nothing. -/
theorem ite_neg {c : Prop} [Decidable c] {e : Reader → Except StreamError β} {q : Reader → Except StreamError β}
    {res : Reader → β} (hc : ¬ c) (hq : Consumes q r res r') : Consumes (fun r => if c then e r else q r) r res r' :=
  congr (fun _ => if_neg hc) hq

/-- A check that passes, its proof used by what follows, reads nothing. -/
theorem dite_pos {c : Prop} [Decidable c] {e : ¬ c → Reader → Except StreamError β}
    {q : c → Reader → Except StreamError β} {res : Reader → β} (hc : c) (hq : Consumes (q hc) r res r') :
    Consumes (fun r => if h : c then q h r else e h r) r res r' :=
  congr (fun _ => dif_pos hc) hq

end Consumes

/-! ## Reads -/

namespace Reader

variable {r r' : Reader}

theorem take_consumes {n : Nat} {bs : List UInt8} (h : r.take n = .ok (bs, r')) : Consumes (·.take n) r (bs, ·) r' := by
  obtain ⟨hn, rfl, rfl⟩ := take_eq_ok h
  simp only [remaining] at hn
  have hlen : (r.rest.take n).length = n := by
    simp only [List.length_take]
    omega
  refine ⟨r.rest.take n, (List.take_append_drop n r.rest).symm, by simp [hlen], ⟨fun tail => ?_, fun k hk => ?_⟩⟩
  · simpa only [hlen] using take_append (r.rest.take n) tail r.pos
  · -- a prefix of `k < n` bytes is too short for the take
    rw [hlen] at hk
    have hk' : ((r.rest.take n).take k).length = k := by
      simp only [List.length_take]
      omega
    refine ⟨r.pos, n, k, ?_⟩
    simp only [take, List.take_take, List.length_take]
    rw [if_pos (by omega)]
    congr 2
    omega

theorem u32_consumes {v : Nat} (h : r.u32 = .ok (v, r')) : Consumes (·.u32) r (v, ·) r' := by
  obtain ⟨⟨bs, r₁⟩, htake, h⟩ := Except.bind_eq_ok.1 h
  cases h
  exact (take_consumes htake).bind Consumes.pure

theorem u64_consumes {v : Nat} (h : r.u64 = .ok (v, r')) : Consumes (·.u64) r (v, ·) r' := by
  obtain ⟨⟨bs, r₁⟩, htake, h⟩ := Except.bind_eq_ok.1 h
  cases h
  exact (take_consumes htake).bind Consumes.pure

theorem block_consumes {bs : List UInt8} (h : r.block = .ok (bs, r')) : Consumes (·.block) r (bs, ·) r' := by
  obtain ⟨⟨n, r₁⟩, hlen, h⟩ := Except.bind_eq_ok.1 h
  exact (u64_consumes hlen).bind (take_consumes h)

end Reader

/-! ## The passes of the decoder -/

theorem readEntries_consumes : ∀ (n : Nat) (r : Reader) (acc : Array Entry) {entries : Array Entry}
    {r' : Reader}, readEntries n r acc = .ok (entries, r') → Consumes (readEntries n · acc) r (entries, ·) r'
  | 0, r, acc, _, _, h => by
    cases h
    exact Consumes.pure
  | n + 1, r, acc, _, _, h => by
    rw [readEntries.eq_2] at h
    obtain ⟨⟨token, r₁⟩, h₁, h⟩ := Except.bind_eq_ok.1 h
    obtain ⟨⟨index, r₂⟩, h₂, h⟩ := Except.bind_eq_ok.1 h
    exact (Reader.u64_consumes h₁).bind ((Reader.u64_consumes h₂).bind (readEntries_consumes n r₂ _ h))

/-- Each entry of a table takes sixteen bytes. -/
theorem readEntries_remaining_eq : ∀ (n : Nat) (r : Reader) (acc : Array Entry) {entries : Array Entry}
    {r' : Reader}, readEntries n r acc = .ok (entries, r') → r.remaining = r'.remaining + entrySize * n
  | 0, r, acc, _, _, h => by
    cases h
    rfl
  | n + 1, r, acc, _, _, h => by
    rw [readEntries.eq_2] at h
    obtain ⟨⟨token, r₁⟩, h₁, h⟩ := Except.bind_eq_ok.1 h
    obtain ⟨⟨index, r₂⟩, h₂, h⟩ := Except.bind_eq_ok.1 h
    have := Reader.u64_eq_ok h₁
    have := Reader.u64_eq_ok h₂
    have := readEntries_remaining_eq n r₂ _ h
    simp only [entrySize] at *
    omega

/-- A table reads its count and its entries. The check that the rest can
hold the entries passes whatever follows them, and where it fails on a cut
input it fails as truncated. -/
theorem readTable_consumes {r r' : Reader} {entries : Array Entry} (h : readTable r = .ok (entries, r')) :
    Consumes readTable r (entries, ·) r' := by
  simp only [readTable] at h ⊢
  obtain ⟨⟨count, r₁⟩, h₁, h⟩ := Except.bind_eq_ok.1 h
  split at h
  · cases h
  refine (Reader.u32_consumes h₁).bind (Consumes.guard (fun _ => ⟨_, _, _, rfl⟩) (readEntries_consumes count r₁ #[] h) ?_)
  have := readEntries_remaining_eq count r₁ #[] h
  simp only [entrySize] at this ⊢
  omega

theorem readClasses_consumes : ∀ (n : Nat) (r : Reader) (acc : Array ClassRecord) {classes : Array ClassRecord}
    {r' : Reader}, readClasses n r acc = .ok (classes, r') → Consumes (readClasses n · acc) r (classes, ·) r'
  | 0, r, acc, _, _, h => by
    cases h
    exact Consumes.pure
  | n + 1, r, acc, _, _, h => by
    rw [readClasses.eq_2] at h
    obtain ⟨⟨bytes, r₁⟩, h₁, h⟩ := Except.bind_eq_ok.1 h
    obtain ⟨record, hwire, h⟩ := Except.bind_eq_ok.1 h
    obtain ⟨c, hc, h⟩ := Except.bind_eq_ok.1 h
    exact (Reader.block_consumes h₁).bind
      (Consumes.ok_bind hwire (Consumes.ok_bind hc (readClasses_consumes n r₁ _ h)))

theorem readHeader_consumes {r r' : Reader} (h : readHeader r = .ok r') : Consumes readHeader r (·) r' := by
  simp only [readHeader] at h
  obtain ⟨⟨magic, r₁⟩, h₁, h⟩ := Except.bind_eq_ok.1 h
  split at h
  · cases h
  rename_i hmagic
  obtain ⟨⟨version, r₂⟩, h₂, h⟩ := Except.bind_eq_ok.1 h
  split at h
  · cases h
  rename_i hversion
  cases h
  exact (Reader.take_consumes h₁).bind (Consumes.ite_neg hmagic
    ((Reader.u32_consumes h₂).bind (Consumes.ite_neg hversion Consumes.pure)))

/-- **The front of a stream**: its header, its classes and its two tables
are read exactly. -/
theorem readFront_consumes {data : List UInt8} {classes : Array ClassRecord} {entries refs : Array Entry}
    {r : Reader} (h : readFront data = .ok (classes, entries, refs, r)) :
    Consumes (fun r => readFront r.rest) ⟨data, 0⟩ (classes, entries, refs, ·) r := by
  simp only [readFront] at h
  obtain ⟨r₁, h₁, h⟩ := Except.bind_eq_ok.1 h
  obtain ⟨⟨count, r₂⟩, h₂, h⟩ := Except.bind_eq_ok.1 h
  obtain ⟨⟨cs, r₃⟩, h₃, h⟩ := Except.bind_eq_ok.1 h
  obtain ⟨⟨es, r₄⟩, h₄, h⟩ := Except.bind_eq_ok.1 h
  split at h
  · cases h
  rename_i hzero
  obtain ⟨⟨rs, r₅⟩, h₅, h⟩ := Except.bind_eq_ok.1 h
  cases h
  -- the front pass starts at the start of the stream
  have hhead : Consumes (fun r => readHeader (Reader.start r.rest)) ⟨data, 0⟩ (·) r₁ :=
    Consumes.congr (fun _ => rfl) (readHeader_consumes h₁)
  unfold readFront
  exact hhead.bind ((Reader.u32_consumes h₂).bind ((readClasses_consumes count r₂ #[] h₃).bind
    ((readTable_consumes h₄).bind (Consumes.ite_neg hzero ((readTable_consumes h₅).bind Consumes.pure)))))

/-- **The instance pass** reads its blocks exactly. The induction is on the
entries still to read. -/
theorem readInstances_consumes (classes : Array ClassRecord) (refs : Array Entry) (classBase base : Nat)
    {n : Nat} : ∀ (entries : List Entry) (position : Nat) (h : position + entries.length = n) (r : Reader)
    (acc : Array (Decoded classes.size)) (marks : Vector Nat n) {decoded : Array (Decoded classes.size)}
    {marks' : Vector Nat n} {r' : Reader},
    readInstances classes refs classBase base entries position h r acc marks = .ok (decoded, marks', r') →
    Consumes (readInstances classes refs classBase base entries position h · acc marks) r (decoded, marks', ·) r'
  | [], _, _, r, acc, marks, _, _, _, hread => by
    cases hread
    exact Consumes.pure
  | e :: es, position, h, r, acc, marks, _, _, _, hread => by
    rw [readInstances.eq_2] at hread
    obtain ⟨⟨bytes, r₁⟩, h₁, hread⟩ := Except.bind_eq_ok.1 hread
    obtain ⟨record, hwire, hread⟩ := Except.bind_eq_ok.1 hread
    split at hread
    · rename_i hk
      obtain ⟨i, hi, hread⟩ := Except.bind_eq_ok.1 hread
      obtain ⟨⟨i', marks₁⟩, hres, hread⟩ := Except.bind_eq_ok.1 hread
      exact (Reader.block_consumes h₁).bind (Consumes.ok_bind hwire (Consumes.dite_pos hk
        (Consumes.ok_bind hi (Consumes.ok_bind hres
          (readInstances_consumes classes refs classBase base es (position + 1) _ r₁ _ marks₁ hread)))))
    · cases hread

/-! ## Whole streams -/

/-- Whether a stream is accepted does not depend on the arena it is read
into. -/
theorem deserialize_ok_of_ok {data : List UInt8} {a : Arena} {x : List InstanceId × Arena}
    (h : deserialize data a = .ok x) (b : Arena) : ∃ y, deserialize data b = .ok y := by
  rw [deserialize_relocate] at h ⊢
  obtain ⟨z, hz, -⟩ := Except.map_eq_ok.1 h
  rw [hz]
  exact ⟨_, rfl⟩

/-- **Accepted streams are prefix-free.** Let a stream be accepted, read
into any arena. Then every proper prefix of it is refused as truncated, and
the stream followed by any more bytes is refused for exactly those trailing
bytes, whatever arena either is read into. A refused stream appends
nothing: the arena stays as it was. -/
theorem deserialize_prefix_free {data : List UInt8} {a : Arena} {x : List InstanceId × Arena}
    (h : deserialize data a = .ok x) (b : Arena) :
    (∀ k < data.length, ∃ pos needed left, deserialize (data.take k) b = .error (.truncated pos needed left)) ∧
      ∀ s : List UInt8, s ≠ [] → deserialize (data ++ s) b = .error (.trailingBytes s.length) := by
  obtain ⟨⟨tops, b'⟩, hb⟩ := deserialize_ok_of_ok h b
  obtain ⟨classes, entries, refs, r, decoded, marks, r', hfront, hinst, hrest, -, -⟩ := deserialize_eq_ok hb
  obtain ⟨u₁, hdata, hpos, hreadFront⟩ := readFront_consumes hfront
  obtain ⟨u₂, hrest₂, -, hreadInst⟩ := readInstances_consumes _ _ _ _ _ _ _ _ _ _ hinst
  -- the stream is the front `u₁` and the instance blocks `u₂`, and nothing more
  have hr' : r'.rest = [] := List.eq_nil_of_length_eq_zero hrest
  simp only [hr', List.append_nil] at hrest₂
  simp only [hrest₂, Nat.zero_add] at hdata hpos hreadFront
  rw [hpos] at hreadInst
  subst hdata
  refine ⟨fun k hk => ?_, fun s hs => ?_⟩
  · by_cases hk₁ : k < u₁.length
    · rw [List.take_append_of_le_length (by omega), deserialize]
      exact (hreadFront.cut k hk₁).bind _
    · rw [List.take_append, List.take_of_length_le (by omega), deserialize]
      have hfront' := hreadFront.extend (u₂.take (k - u₁.length))
      simp only [Nat.zero_add] at hfront'
      rw [hfront', Except.ok_bind]
      simp only
      exact (hreadInst.cut (k - u₁.length) (by simp only [List.length_append] at hk; omega)).bind _
  · rw [List.append_assoc, deserialize]
    have hfront' := hreadFront.extend (u₂ ++ s)
    simp only [Nat.zero_add] at hfront'
    rw [hfront', Except.ok_bind]
    simp only
    rw [hreadInst.extend s, Except.ok_bind]
    simp [Reader.remaining, hs]

/-- The stream of no classes and no instances, twenty bytes long, is
accepted; so every shorter prefix of it is refused as truncated, and every
longer stream that starts with it for its trailing bytes. -/
theorem empty_stream_prefix_free :
    (deserialize (streamMagic ++ putU32 streamVersion ++ putU32 0 ++ putU32 0 ++ putU32 0) Arena.empty).isOk ∧
      (∀ k < 20, ∃ pos needed left, deserialize
        ((streamMagic ++ putU32 streamVersion ++ putU32 0 ++ putU32 0 ++ putU32 0).take k) Arena.empty =
          .error (.truncated pos needed left)) ∧
      ∀ s : List UInt8, s ≠ [] →
        deserialize (streamMagic ++ putU32 streamVersion ++ putU32 0 ++ putU32 0 ++ putU32 0 ++ s) Arena.empty =
          .error (.trailingBytes s.length) := by
  have hok : (deserialize (streamMagic ++ putU32 streamVersion ++ putU32 0 ++ putU32 0 ++ putU32 0)
      Arena.empty).isOk = true := by
    decide +kernel
  obtain ⟨x, hx⟩ := Except.exists_eq_ok_of_isOk _ hok
  exact ⟨hok, deserialize_prefix_free hx Arena.empty⟩

end CimBroker.Stream
