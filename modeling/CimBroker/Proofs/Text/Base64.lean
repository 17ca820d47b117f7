import CimBroker.Text.Base64
import CimBroker.Text.Blank

/-!
# Base64 text reads back its bytes

Reading is strict, yet it accepts every text that writing produces and gives
back the bytes written (`decode_encode`): each full group of three bytes is
read back from its four symbols, and a short last group from its symbols and
padding, the bits left over being zero by construction. The induction is on
the groups.

A written text holds only symbols of the alphabet and padding, none of them
blank (`isBlank_of_mem_encode`), so trimming a written text leaves it whole.
-/

namespace CimBroker.Text.Base64

/-- Each symbol reads back as its value. -/
theorem symbolValue_symbol : ∀ n < 64, symbolValue (symbol n) = some n := by
  decide +kernel

theorem symbol_ne_pad : ∀ n < 64, symbol n ≠ '=' := by
  decide +kernel

theorem isBlank_symbol : ∀ n < 64, Text.isBlank (symbol n) = false := by
  decide +kernel

theorem toUInt8_eq {n : Nat} {a : UInt8} (h : n = a.toNat) : n.toUInt8 = a := by
  subst h
  simp

/-- **Reading what was written.** The symbols of a byte string read back as
those bytes, group by group. -/
theorem decodeChars_encodeChars : ∀ bs : List UInt8, decodeChars (encodeChars bs) = some bs
  | [] => rfl
  | [a] => by
    have ha := a.toNat_lt
    rw [encodeChars, decodeChars.eq_2, symbolValue_symbol _ (by omega), symbolValue_symbol _ (by omega)]
    simp only [Option.bind_eq_bind, Option.bind_some]
    rw [if_pos (by omega), toUInt8_eq (a := a) (by omega)]
  | [a, b] => by
    have ha := a.toNat_lt
    have hb := b.toNat_lt
    -- the third symbol is no padding, so the text is not read as a one-byte group
    rw [encodeChars, decodeChars.eq_3 _ _ _ (symbol_ne_pad _ (by omega)), symbolValue_symbol _ (by omega),
      symbolValue_symbol _ (by omega), symbolValue_symbol _ (by omega)]
    simp only [Option.bind_eq_bind, Option.bind_some]
    rw [if_pos (by omega), toUInt8_eq (a := a) (by omega), toUInt8_eq (a := b) (by omega)]
  | a :: b :: c :: rest => by
    have ha := a.toNat_lt
    have hb := b.toNat_lt
    have hc := c.toNat_lt
    have h4 := symbol_ne_pad ((a.toNat * 65536 + b.toNat * 256 + c.toNat) % 64) (Nat.mod_lt _ (by decide))
    rw [encodeChars, decodeChars.eq_4 _ _ _ _ _ (fun _ h _ => h4 h) (fun h _ => h4 h),
      symbolValue_symbol _ (by omega), symbolValue_symbol _ (by omega), symbolValue_symbol _ (by omega),
      symbolValue_symbol _ (by omega), decodeChars_encodeChars rest]
    simp only [Option.bind_eq_bind, Option.bind_some]
    rw [toUInt8_eq (a := a) (by omega), toUInt8_eq (a := b) (by omega), toUInt8_eq (a := c) (by omega)]

theorem decode_encode (bs : List UInt8) : decode (encode bs) = some bs := by
  simp [decode, encode, decodeChars_encodeChars]

/-- A written text holds symbols and padding only. -/
theorem mem_encodeChars {ch : Char} : ∀ {bs : List UInt8}, ch ∈ encodeChars bs → (∃ n < 64, ch = symbol n) ∨ ch = '='
  | [], h => by simp [encodeChars] at h
  | [a], h => by
    have ha := a.toNat_lt
    simp only [encodeChars, List.mem_cons, List.not_mem_nil, or_false] at h
    rcases h with rfl | rfl | rfl | rfl
    · exact .inl ⟨_, by omega, rfl⟩
    · exact .inl ⟨_, by omega, rfl⟩
    · exact .inr rfl
    · exact .inr rfl
  | [a, b], h => by
    have ha := a.toNat_lt
    have hb := b.toNat_lt
    simp only [encodeChars, List.mem_cons, List.not_mem_nil, or_false] at h
    rcases h with rfl | rfl | rfl | rfl
    · exact .inl ⟨_, by omega, rfl⟩
    · exact .inl ⟨_, by omega, rfl⟩
    · exact .inl ⟨_, by omega, rfl⟩
    · exact .inr rfl
  | a :: b :: c :: rest, h => by
    have ha := a.toNat_lt
    have hb := b.toNat_lt
    have hc := c.toNat_lt
    simp only [encodeChars, List.mem_cons] at h
    rcases h with rfl | rfl | rfl | rfl | h
    · exact .inl ⟨_, by omega, rfl⟩
    · exact .inl ⟨_, by omega, rfl⟩
    · exact .inl ⟨_, by omega, rfl⟩
    · exact .inl ⟨_, Nat.mod_lt _ (by decide), rfl⟩
    · exact mem_encodeChars h

/-- No character of a written text is blank. -/
theorem isBlank_of_mem_encode {bs : List UInt8} {ch : Char} (h : ch ∈ (encode bs).toList) :
    Text.isBlank ch = false := by
  rw [encode, String.toList_ofList] at h
  rcases mem_encodeChars h with ⟨n, hn, rfl⟩ | rfl
  · exact isBlank_symbol n hn
  · decide

end CimBroker.Text.Base64
