import CimBroker.Proofs.Stream.Decoding

/-!
# Every rejected stream is malformed

The decoder takes any bytes. Its reads check the bytes left before they
take any, a record's header length before its kind, its fixed region
before its slots, a class position before the class list is indexed and a
reference's target before the target is claimed; these checks are carried
in the definitions as the bounds of the positions they use. What is left to
show is that whatever it refuses, it refuses as malformed input:
every error it returns is a decode failure (`StreamError.isDecodeFailure`),
never an error about the arena or about writing.

The one refusal that is not about the input's form is a record too large
for a 64-bit size; a record no larger than its stream cannot be that, so it
never happens for a stream shorter than 4 GiB.

## Main results

* `deserialize_error_isDecodeFailure` — every error of the decoder is a
  decode failure.
-/

namespace CimBroker.Stream

/-- Every error that `x` can give is a decode failure. -/
def OnlyDecodeFailures {α : Type} (x : Except StreamError α) : Prop :=
  ∀ e, x = .error e → e.isDecodeFailure = true

section Sequencing

variable {α β : Type}

theorem onlyDecodeFailures_ok (a : α) : OnlyDecodeFailures (.ok a : Except StreamError α) := by
  intro e h
  cases h

theorem onlyDecodeFailures_error {e : StreamError} (he : e.isDecodeFailure = true) :
    OnlyDecodeFailures (.error e : Except StreamError α) := by
  intro e' h
  cases h
  exact he

theorem onlyDecodeFailures_bind {x : Except StreamError α} {f : α → Except StreamError β}
    (hx : OnlyDecodeFailures x) (hf : ∀ a, x = .ok a → OnlyDecodeFailures (f a)) :
    OnlyDecodeFailures (x >>= f) := by
  intro e h
  rcases Except.bind_eq_error.1 h with h | ⟨a, ha, h⟩
  · exact hx e h
  · exact hf a ha e h

/-- A check that fails with a decode failure, then the rest. -/
theorem onlyDecodeFailures_ite {c : Prop} [Decidable c] {e : StreamError} {x : Except StreamError α}
    (he : e.isDecodeFailure = true) (hx : OnlyDecodeFailures x) :
    OnlyDecodeFailures (if c then .error e else x) := by
  split
  · exact onlyDecodeFailures_error he
  · exact hx

theorem onlyDecodeFailures_of_truncated {x : Except StreamError α}
    (h : ∀ e, x = .error e → ∃ pos needed left, e = .truncated pos needed left) : OnlyDecodeFailures x := by
  intro e he
  obtain ⟨pos, needed, left, rfl⟩ := h e he
  rfl

end Sequencing

/-! ## Reads and checks -/

namespace Reader

theorem onlyDecodeFailures_take (r : Reader) (n : Nat) : OnlyDecodeFailures (r.take n) :=
  onlyDecodeFailures_of_truncated fun _ => take_eq_error

theorem onlyDecodeFailures_u32 (r : Reader) : OnlyDecodeFailures r.u32 :=
  onlyDecodeFailures_of_truncated fun _ => u32_eq_error

theorem onlyDecodeFailures_u64 (r : Reader) : OnlyDecodeFailures r.u64 :=
  onlyDecodeFailures_of_truncated fun _ => u64_eq_error

theorem onlyDecodeFailures_block (r : Reader) : OnlyDecodeFailures r.block :=
  onlyDecodeFailures_of_truncated fun _ => block_eq_error

end Reader

/-- A record no larger than a 64-bit size allows is refused only as corrupt. -/
theorem Record.onlyDecodeFailures_ofWire {bytes : List UInt8} {slack : Nat} (kind : RecordKind)
    (hsize : bytes.length + slack ≤ maxU64) : OnlyDecodeFailures (Record.ofWire bytes slack kind) := by
  intro e h
  unfold Record.ofWire at h
  simp only at h
  split at h
  · cases h
    rfl
  split at h
  · omega
  split at h
  · cases h
    rfl
  split at h
  · cases h
    rfl
  split at h
  · cases h
    rfl
  split at h
  · cases h
    rfl
  · cases h

theorem ClassRecord.onlyDecodeFailures_ofRecord (r : Record) :
    OnlyDecodeFailures (ClassRecord.ofRecord r) := by
  intro e h
  unfold ClassRecord.ofRecord at h
  split at h
  · cases h
    rfl
  · split at h
    · cases h
      rfl
    · cases h

theorem InstanceRecord.onlyDecodeFailures_ofRecord (r : Record) (cls : ClassId) (c : ClassRecord) :
    OnlyDecodeFailures (InstanceRecord.ofRecord r cls c) := by
  intro e h
  unfold InstanceRecord.ofRecord at h
  split_ifs at h <;> cases h <;> rfl

/-- Resolving the reference slots fails only on a token the table does not
map, or maps to a later position; never on a slot out of range. -/
theorem onlyDecodeFailures_resolveSlots {n : Nat} (refs : Array Entry) (base position : Nat)
    (hpos : position < n) (i : InstanceRecord) (marks : Vector Nat n) :
    OnlyDecodeFailures (resolveSlots refs base position hpos i marks) := by
  intro e h
  rw [resolveSlots_eq] at h
  cases hmap : i.record.tokens.mapM (resolveToken refs position) with
  | ok us => rw [hmap] at h; cases h
  | error e' =>
    rw [hmap] at h
    cases h
    obtain ⟨t, -, ht⟩ := exists_of_mapM_eq_error hmap
    rcases resolveToken_eq_error ht with rfl | ⟨target, rfl⟩ <;> rfl

/-! ## The passes of the decoder

Each pass reads only from the bytes left, so a record it reads is no longer
than they are. -/

theorem readEntries_remaining : ∀ (n : Nat) (r : Reader) (acc : Array Entry) {entries : Array Entry}
    {r' : Reader}, readEntries n r acc = .ok (entries, r') → r'.remaining ≤ r.remaining
  | 0, r, acc, _, _, h => by
    cases h
    exact Nat.le_refl _
  | n + 1, r, acc, _, _, h => by
    simp only [readEntries] at h
    obtain ⟨⟨token, r₁⟩, h₁, h⟩ := Except.bind_eq_ok.1 h
    dsimp only at h
    obtain ⟨⟨index, r₂⟩, h₂, h⟩ := Except.bind_eq_ok.1 h
    have := Reader.u64_eq_ok h₁
    have := Reader.u64_eq_ok h₂
    have := readEntries_remaining n r₂ _ h
    omega

theorem onlyDecodeFailures_readEntries : ∀ (n : Nat) (r : Reader) (acc : Array Entry),
    OnlyDecodeFailures (readEntries n r acc)
  | 0, _, _ => onlyDecodeFailures_ok _
  | n + 1, r, acc => by
    simp only [readEntries]
    refine onlyDecodeFailures_bind (Reader.onlyDecodeFailures_u64 r) fun ⟨token, r₁⟩ _ => ?_
    refine onlyDecodeFailures_bind (Reader.onlyDecodeFailures_u64 r₁) fun ⟨index, r₂⟩ _ => ?_
    exact onlyDecodeFailures_readEntries n r₂ _

theorem readTable_remaining {r r' : Reader} {entries : Array Entry} (h : readTable r = .ok (entries, r')) :
    r'.remaining ≤ r.remaining := by
  simp only [readTable] at h
  obtain ⟨⟨count, r₁⟩, h₁, h⟩ := Except.bind_eq_ok.1 h
  have := Reader.u32_eq_ok h₁
  split at h
  · cases h
  · have := readEntries_remaining count r₁ #[] h
    omega

theorem onlyDecodeFailures_readTable (r : Reader) : OnlyDecodeFailures (readTable r) := by
  simp only [readTable]
  refine onlyDecodeFailures_bind (Reader.onlyDecodeFailures_u32 r) fun ⟨count, r₁⟩ _ => ?_
  exact onlyDecodeFailures_ite rfl (onlyDecodeFailures_readEntries count r₁ #[])

theorem readClasses_remaining : ∀ (n : Nat) (r : Reader) (acc : Array ClassRecord)
    {classes : Array ClassRecord} {r' : Reader}, readClasses n r acc = .ok (classes, r') →
      r'.remaining ≤ r.remaining
  | 0, r, acc, _, _, h => by
    cases h
    exact Nat.le_refl _
  | n + 1, r, acc, _, _, h => by
    simp only [readClasses] at h
    obtain ⟨⟨bytes, r₁⟩, h₁, h⟩ := Except.bind_eq_ok.1 h
    dsimp only at h
    obtain ⟨record, -, h⟩ := Except.bind_eq_ok.1 h
    obtain ⟨c, -, h⟩ := Except.bind_eq_ok.1 h
    have := Reader.block_eq_ok h₁
    have := readClasses_remaining n r₁ _ h
    omega

/-- The class pass, from a reader with fewer bytes left than a 64-bit size
allows. The induction is on the classes still to read. -/
theorem onlyDecodeFailures_readClasses : ∀ (n : Nat) (r : Reader) (acc : Array ClassRecord),
    r.remaining ≤ maxU64 → OnlyDecodeFailures (readClasses n r acc)
  | 0, _, _, _ => onlyDecodeFailures_ok _
  | n + 1, r, acc, hr => by
    simp only [readClasses]
    refine onlyDecodeFailures_bind (Reader.onlyDecodeFailures_block r) fun ⟨bytes, r₁⟩ h₁ => ?_
    have hblock := Reader.block_eq_ok h₁
    dsimp only
    refine onlyDecodeFailures_bind (Record.onlyDecodeFailures_ofWire _ (by omega)) fun record _ => ?_
    refine onlyDecodeFailures_bind (ClassRecord.onlyDecodeFailures_ofRecord record) fun c _ => ?_
    exact onlyDecodeFailures_readClasses n r₁ _ (by omega)

/-- The instance pass, from a reader with room for an instance's free bytes
below a 64-bit size. The induction is on the entries still to read. -/
theorem onlyDecodeFailures_readInstances (classes : Array ClassRecord) (refs : Array Entry)
    (classBase base : Nat) {n : Nat} : ∀ (entries : List Entry) (position : Nat)
    (h : position + entries.length = n) (r : Reader) (acc : Array (Decoded classes.size))
    (marks : Vector Nat n), r.remaining + instanceSlack ≤ maxU64 →
      OnlyDecodeFailures (readInstances classes refs classBase base entries position h r acc marks)
  | [], _, _, _, _, _, _ => onlyDecodeFailures_ok _
  | e :: es, position, h, r, acc, marks, hr => by
    simp only [readInstances]
    refine onlyDecodeFailures_bind (Reader.onlyDecodeFailures_block r) fun ⟨bytes, r₁⟩ h₁ => ?_
    have hblock := Reader.block_eq_ok h₁
    dsimp only
    refine onlyDecodeFailures_bind (Record.onlyDecodeFailures_ofWire _ (by omega)) fun record _ => ?_
    split
    · refine onlyDecodeFailures_bind (InstanceRecord.onlyDecodeFailures_ofRecord _ _ _) fun i _ => ?_
      refine onlyDecodeFailures_bind (onlyDecodeFailures_resolveSlots _ _ _ _ _ _) fun ⟨i', marks'⟩ _ => ?_
      exact onlyDecodeFailures_readInstances classes refs classBase base es _ _ r₁ _ marks' (by omega)
    · exact onlyDecodeFailures_error rfl

theorem readHeader_remaining {r r' : Reader} (h : readHeader r = .ok r') : r'.remaining ≤ r.remaining := by
  simp only [readHeader] at h
  obtain ⟨⟨magic, r₁⟩, h₁, h⟩ := Except.bind_eq_ok.1 h
  obtain ⟨-, -, rfl⟩ := Reader.take_eq_ok h₁
  split at h
  · cases h
  obtain ⟨⟨version, r₂⟩, h₂, h⟩ := Except.bind_eq_ok.1 h
  have := Reader.u32_eq_ok h₂
  split at h
  · cases h
  · cases h
    simp only [Reader.remaining, List.length_drop] at this ⊢
    omega

theorem onlyDecodeFailures_readHeader (r : Reader) : OnlyDecodeFailures (readHeader r) := by
  simp only [readHeader]
  refine onlyDecodeFailures_bind (Reader.onlyDecodeFailures_take r 4) fun ⟨magic, r₁⟩ _ => ?_
  refine onlyDecodeFailures_ite rfl ?_
  refine onlyDecodeFailures_bind (Reader.onlyDecodeFailures_u32 r₁) fun ⟨version, r₂⟩ _ => ?_
  exact onlyDecodeFailures_ite rfl (onlyDecodeFailures_ok _)

theorem readFront_remaining {data : List UInt8} {classes : Array ClassRecord} {entries refs : Array Entry}
    {r : Reader} (h : readFront data = .ok (classes, entries, refs, r)) : r.remaining ≤ data.length := by
  simp only [readFront] at h
  obtain ⟨r₁, h₁, h⟩ := Except.bind_eq_ok.1 h
  obtain ⟨⟨count, r₂⟩, h₂, h⟩ := Except.bind_eq_ok.1 h
  obtain ⟨⟨cs, r₃⟩, h₃, h⟩ := Except.bind_eq_ok.1 h
  obtain ⟨⟨es, r₄⟩, h₄, h⟩ := Except.bind_eq_ok.1 h
  split at h
  · cases h
  obtain ⟨⟨rs, r₅⟩, h₅, h⟩ := Except.bind_eq_ok.1 h
  cases h
  have := readHeader_remaining h₁
  have := Reader.u32_eq_ok h₂
  have := readClasses_remaining count r₂ #[] h₃
  have := readTable_remaining h₄
  have := readTable_remaining h₅
  simp only [Reader.start, Reader.remaining] at *
  omega

theorem onlyDecodeFailures_readFront {data : List UInt8} (hdata : data.length ≤ maxU64) :
    OnlyDecodeFailures (readFront data) := by
  simp only [readFront]
  refine onlyDecodeFailures_bind (onlyDecodeFailures_readHeader _) fun r₁ h₁ => ?_
  have := readHeader_remaining h₁
  refine onlyDecodeFailures_bind (Reader.onlyDecodeFailures_u32 r₁) ?_
  rintro ⟨count, r₂⟩ h₂
  have := Reader.u32_eq_ok h₂
  refine onlyDecodeFailures_bind (onlyDecodeFailures_readClasses count r₂ #[] ?_) ?_
  · simp only [Reader.start, Reader.remaining] at *
    omega
  rintro ⟨cs, r₃⟩ -
  refine onlyDecodeFailures_bind (onlyDecodeFailures_readTable r₃) ?_
  rintro ⟨es, r₄⟩ -
  refine onlyDecodeFailures_ite rfl ?_
  refine onlyDecodeFailures_bind (onlyDecodeFailures_readTable r₄) ?_
  rintro ⟨rs, r₅⟩ -
  exact onlyDecodeFailures_ok _

/-- **Every rejected stream is malformed.** Whatever bytes shorter than 4 GiB
are given, and whatever the arena holds, an error of the decoder is a
decode failure: a truncated stream, a wrong magic or version, a corrupt
record, a class index out of range, an unresolved or forward reference, or
trailing bytes. -/
theorem deserialize_error_isDecodeFailure {data : List UInt8} {a : Arena} {e : StreamError}
    (hdata : data.length < 2 ^ 32) (h : deserialize data a = .error e) : e.isDecodeFailure = true := by
  revert e
  show OnlyDecodeFailures (deserialize data a)
  simp only [deserialize]
  refine onlyDecodeFailures_bind (onlyDecodeFailures_readFront (by simp only [maxU64]; omega))
    fun ⟨classes, entries, refs, r⟩ hfront => ?_
  have := readFront_remaining hfront
  refine onlyDecodeFailures_bind (onlyDecodeFailures_readInstances _ _ _ _ _ _ _ _ _ _ ?_)
    fun ⟨decoded, marks, r'⟩ _ => ?_
  · simp only [instanceSlack, maxU64]
    omega
  exact onlyDecodeFailures_ite rfl (onlyDecodeFailures_ok _)

/-- An empty input is refused as truncated, which is a decode failure. -/
theorem deserialize_empty_isDecodeFailure :
    deserialize [] Arena.empty = .error (.truncated 0 4 0) ∧ (StreamError.truncated 0 4 0).isDecodeFailure = true :=
  ⟨rfl, @deserialize_error_isDecodeFailure [] Arena.empty _ (by decide) rfl⟩

end CimBroker.Stream
