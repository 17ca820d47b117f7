import Mathlib.Algebra.Group.Nat.Defs
import Mathlib.Control.Monad.Basic
import CimBroker.Stream.Wire

/-!
# Reading back what was written

A stream is read by a `Reader` that takes bytes off the front of what is
left. This module says what each read does on bytes that a write produced:
a word written at its width reads back as the number written, a block
reads back as its bytes, and the reader is left at the bytes that follow,
its position advanced by the bytes taken.

A word keeps its value only when the value fits the width, so the word
lemmas carry that bound; a block's length is a `u64` word, so a block
reads back when it is shorter than `2 ^ 64` bytes.

## Main results

* `Reader.take_append` — taking as many bytes as a prefix holds returns it.
* `Reader.u32_putU32`, `Reader.u64_putU64` — words read back when they fit.
* `Reader.block_putBlock` — a block reads back as its bytes.
-/

namespace CimBroker.Stream

/-! ## Sequencing in `Except`

`Except` has no simp lemmas of its own for `>>=`; these let `simp` run a
decoder step by step once a step's result is known, and let a proof take a
successful sequence apart. -/

@[simp] theorem Except.ok_bind {ε α β : Type} (a : α) (f : α → Except ε β) :
    (Except.ok a >>= f) = f a := rfl

@[simp] theorem Except.error_bind {ε α β : Type} (e : ε) (f : α → Except ε β) :
    (Except.error e >>= f) = Except.error e := rfl

@[simp] theorem Except.pure_eq_ok {ε α : Type} (a : α) : (pure a : Except ε α) = .ok a := rfl

@[simp] theorem Except.throw_eq_error {ε α : Type} (e : ε) : (throw e : Except ε α) = .error e := rfl

@[simp] theorem Except.map_ok_eq {ε α β : Type} (f : α → β) (a : α) :
    Except.map f (.ok a : Except ε α) = .ok (f a) := rfl

@[simp] theorem Except.map_error_eq {ε α β : Type} (f : α → β) (e : ε) :
    Except.map f (.error e : Except ε α) = .error e := rfl

theorem Except.map_eq_ok {ε α β : Type} {f : α → β} {x : Except ε α} {b : β} :
    x.map f = .ok b ↔ ∃ a, x = .ok a ∧ f a = b := by
  cases x <;> simp

/-- A sequence succeeds when its first step does and the rest succeeds on
that step's result. -/
theorem Except.bind_eq_ok {ε α β : Type} {x : Except ε α} {f : α → Except ε β} {b : β} :
    (x >>= f) = .ok b ↔ ∃ a, x = .ok a ∧ f a = .ok b := by
  cases x <;> simp

/-- A sequence fails when its first step does, or when the rest fails on
that step's result. -/
theorem Except.bind_eq_error {ε α β : Type} {x : Except ε α} {f : α → Except ε β} {e : ε} :
    (x >>= f) = .error e ↔ x = .error e ∨ ∃ a, x = .ok a ∧ f a = .error e := by
  cases x <;> simp

/-- A computation that succeeds once with `b` and once with `b'` gave one
answer. -/
theorem Except.ok_inj {ε α : Type} {a b : α} (h : (Except.ok a : Except ε α) = .ok b) : a = b := by
  cases h
  rfl

/-- A computation whose success test passes succeeded with some value. -/
theorem Except.exists_eq_ok_of_isOk {ε α : Type} (e : Except ε α) (h : e.isOk = true) : ∃ a, e = .ok a := by
  cases e with
  | error err => simp [Except.isOk, Except.toBool] at h
  | ok a => exact ⟨a, rfl⟩

/-- A map succeeds with each element's result when every element succeeds. -/
theorem mapM_eq_ok_of_forall {ε α β : Type} {f : α → Except ε β} {g : α → β} :
    ∀ {l : List α}, (∀ a ∈ l, f a = .ok (g a)) → l.mapM f = .ok (l.map g)
  | [], _ => rfl
  | a :: l, h => by
    rw [List.mapM_cons, h a (by simp), Except.ok_bind,
      mapM_eq_ok_of_forall fun b hb => h b (List.mem_cons_of_mem a hb)]
    rfl

/-- Every result of a successful map is the result of one of its elements. -/
theorem mem_of_mapM_eq_ok {ε α β : Type} {f : α → Except ε β} :
    ∀ {l : List α} {us : List β}, l.mapM f = .ok us → ∀ u ∈ us, ∃ a ∈ l, f a = .ok u
  | [], us, h => by
    cases h
    simp
  | a :: l, us, h => by
    rw [List.mapM_cons] at h
    obtain ⟨b, hb, h⟩ := Except.bind_eq_ok.1 h
    obtain ⟨bs, hbs, h⟩ := Except.bind_eq_ok.1 h
    cases h
    intro u hu
    rcases List.mem_cons.1 hu with rfl | hu
    · exact ⟨a, by simp, hb⟩
    · obtain ⟨a', ha', hf⟩ := mem_of_mapM_eq_ok hbs u hu
      exact ⟨a', List.mem_cons_of_mem a ha', hf⟩

/-- A successful map has one result per element. -/
theorem length_of_mapM_eq_ok {ε α β : Type} {f : α → Except ε β} :
    ∀ {l : List α} {us : List β}, l.mapM f = .ok us → us.length = l.length
  | [], us, h => by
    cases h
    rfl
  | a :: l, us, h => by
    rw [List.mapM_cons] at h
    obtain ⟨b, -, h⟩ := Except.bind_eq_ok.1 h
    obtain ⟨bs, hbs, h⟩ := Except.bind_eq_ok.1 h
    cases h
    simp [length_of_mapM_eq_ok hbs]

/-- A failed map failed at one of its elements. -/
theorem exists_of_mapM_eq_error {ε α β : Type} {f : α → Except ε β} {e : ε} :
    ∀ {l : List α}, l.mapM f = .error e → ∃ a ∈ l, f a = .error e
  | [], h => by cases h
  | a :: l, h => by
    rw [List.mapM_cons] at h
    rcases Except.bind_eq_error.1 h with hb | ⟨b, -, h⟩
    · exact ⟨a, by simp, hb⟩
    rcases Except.bind_eq_error.1 h with hl | ⟨bs, -, h⟩
    · obtain ⟨a', ha', hf⟩ := exists_of_mapM_eq_error hl
      exact ⟨a', List.mem_cons_of_mem a ha', hf⟩
    · cases h

/-! ## Lengths of what is written -/

@[simp] theorem length_putU32 (n : Nat) : (putU32 n).length = 4 := by simp [putU32]

@[simp] theorem length_putU64 (n : Nat) : (putU64 n).length = 8 := by simp [putU64]

@[simp] theorem length_putBlock (bs : List UInt8) : (putBlock bs).length = 8 + bs.length := by
  simp [putBlock]

/-! ## Little-endian words -/

/-- Reading the low `k` bytes of `n` loses nothing when `n` fits in them. -/
theorem readLE_le (k n : Nat) (h : n < 256 ^ k) : readLE (le k n) = n := by
  induction k generalizing n with
  | zero =>
    have hn : n = 0 := by simp at h; omega
    simp [hn, le, readLE]
  | succ k ih =>
    have hd : n / 256 < 256 ^ k := by
      apply (Nat.div_lt_iff_lt_mul (by decide : 0 < 256)).2
      simpa [Nat.pow_succ] using h
    have hb : (n.toUInt8).toNat = n % 256 := by simp
    simp only [le, readLE, ih _ hd, hb]
    omega

/-- A word of `k` bytes is below `256 ^ k`. -/
theorem readLE_lt (bs : List UInt8) : readLE bs < 256 ^ bs.length := by
  induction bs with
  | nil => simp [readLE]
  | cons b bs ih =>
    have hb := b.toNat_lt
    simp only [readLE, List.length_cons, Nat.pow_succ]
    omega

/-! ## Reads -/

namespace Reader

@[simp] theorem remaining_mk (rest : List UInt8) (pos : Nat) :
    (⟨rest, pos⟩ : Reader).remaining = rest.length := rfl

/-- Taking as many bytes as a prefix holds returns that prefix. -/
theorem take_append (bs rest : List UInt8) (pos : Nat) :
    (⟨bs ++ rest, pos⟩ : Reader).take bs.length = .ok (bs, ⟨rest, pos + bs.length⟩) := by
  simp [take]

/-- A take that succeeds returns the next `n` bytes, and a reader past them. -/
theorem take_eq_ok {r r' : Reader} {n : Nat} {bs : List UInt8} (h : r.take n = .ok (bs, r')) :
    n ≤ r.remaining ∧ bs = r.rest.take n ∧ r' = ⟨r.rest.drop n, r.pos + n⟩ := by
  unfold take at h
  simp only at h
  split at h
  · cases h
  · rename_i hlen
    cases h
    simp only [List.length_take] at hlen
    exact ⟨by simp only [remaining]; omega, rfl, rfl⟩

/-- A take that fails ran out of bytes. -/
theorem take_eq_error {r : Reader} {n : Nat} {e : StreamError} (h : r.take n = .error e) :
    ∃ pos needed left, e = .truncated pos needed left := by
  unfold take at h
  simp only at h
  split at h
  · cases h
    exact ⟨_, _, _, rfl⟩
  · cases h

theorem u64_eq_ok {r r' : Reader} {v : Nat} (h : r.u64 = .ok (v, r')) : r'.remaining + 8 = r.remaining := by
  obtain ⟨⟨bs, r''⟩, htake, h⟩ := Except.bind_eq_ok.1 h
  cases h
  obtain ⟨hn, -, rfl⟩ := take_eq_ok htake
  simp only [remaining, List.length_drop] at hn ⊢
  omega

theorem u32_eq_ok {r r' : Reader} {v : Nat} (h : r.u32 = .ok (v, r')) : r'.remaining + 4 = r.remaining := by
  obtain ⟨⟨bs, r''⟩, htake, h⟩ := Except.bind_eq_ok.1 h
  cases h
  obtain ⟨hn, -, rfl⟩ := take_eq_ok htake
  simp only [remaining, List.length_drop] at hn ⊢
  omega

/-- A block that is read lies within the bytes that were left. -/
theorem block_eq_ok {r r' : Reader} {bs : List UInt8} (h : r.block = .ok (bs, r')) :
    r'.remaining + 8 + bs.length = r.remaining := by
  obtain ⟨⟨n, r''⟩, hlen, h⟩ := Except.bind_eq_ok.1 h
  have hword := u64_eq_ok hlen
  obtain ⟨hn, rfl, rfl⟩ := take_eq_ok h
  simp only [remaining, List.length_drop, List.length_take] at hn hword ⊢
  omega

theorem u32_eq_error {r : Reader} {e : StreamError} (h : r.u32 = .error e) :
    ∃ pos needed left, e = .truncated pos needed left := by
  rcases Except.bind_eq_error.1 h with h | ⟨_, -, h⟩
  · exact take_eq_error h
  · cases h

theorem u64_eq_error {r : Reader} {e : StreamError} (h : r.u64 = .error e) :
    ∃ pos needed left, e = .truncated pos needed left := by
  rcases Except.bind_eq_error.1 h with h | ⟨_, -, h⟩
  · exact take_eq_error h
  · cases h

theorem block_eq_error {r : Reader} {e : StreamError} (h : r.block = .error e) :
    ∃ pos needed left, e = .truncated pos needed left := by
  rcases Except.bind_eq_error.1 h with h | ⟨_, -, h⟩
  · exact u64_eq_error h
  · exact take_eq_error h

/-- A `u32` word reads back as the number written, when it fits. -/
theorem u32_putU32 {n : Nat} (h : n < 2 ^ 32) (rest : List UInt8) (pos : Nat) :
    (⟨putU32 n ++ rest, pos⟩ : Reader).u32 = .ok (n, ⟨rest, pos + 4⟩) := by
  have htake := take_append (putU32 n) rest pos
  rw [length_putU32] at htake
  simp only [u32, htake, Except.ok_bind]
  rw [putU32, readLE_le 4 n h]
  rfl

/-- A `u64` word reads back as the number written, when it fits. -/
theorem u64_putU64 {n : Nat} (h : n < 2 ^ 64) (rest : List UInt8) (pos : Nat) :
    (⟨putU64 n ++ rest, pos⟩ : Reader).u64 = .ok (n, ⟨rest, pos + 8⟩) := by
  have htake := take_append (putU64 n) rest pos
  rw [length_putU64] at htake
  simp only [u64, htake, Except.ok_bind]
  rw [putU64, readLE_le 8 n h]
  rfl

/-- A block reads back as its bytes, when its length fits the length word. -/
theorem block_putBlock {bs : List UInt8} (h : bs.length < 2 ^ 64) (rest : List UInt8) (pos : Nat) :
    (⟨putBlock bs ++ rest, pos⟩ : Reader).block = .ok (bs, ⟨rest, pos + 8 + bs.length⟩) := by
  rw [putBlock, List.append_assoc]
  simp only [block, u64_putU64 h, Except.ok_bind, take_append]

end Reader

end CimBroker.Stream
