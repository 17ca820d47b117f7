import CimBroker.Address.Ipv4

/-!
# What the dotted-decimal reader accepts

`Ipv4.scan` reads an address at the front of a text and wants the end of
the text or a colon right after it. This module pins it down exactly: it
accepts a text precisely when the text starts with the dotted-decimal text
of an address (`Ipv4.toText`: four decimal octets without leading zeros)
followed by nothing or by a colon, and it then returns that address and the
length of its text. So every literal it accepts is the one text its octets
are written as, and reading inverts writing.

What ties reading to writing is a fact about digits: the octet reader takes
one to three digits and refuses a leading zero on two or three, and a list
of digits of that kind is the decimal text of its value (`Nat.toDigits 10`).

## Main results

* `Ipv4.scanOctet_toDigits_append` — an octet's decimal text reads back.
* `Ipv4.eq_toDigits_append_of_scanOctet` — an octet read is its decimal text.
* `Ipv4.scan_eq_some_iff` — the texts the reader accepts, and what it returns.
* `Ipv4.literal_iff` — the text of an address is its one canonical literal:
  four octets of one to three digits, none with a leading zero.
* `Ipv4.scan_canonical` — the reader accepts exactly the canonical literals
  followed by nothing or a colon, and counts the bytes of the literal.
-/

namespace CimBroker.Address

/-! ## Digits -/

/-- Reading the digits of `n` in base `b`, most significant first, gives
`n` back. The induction follows `Nat.toDigits`: the last digit comes off the
end. -/
theorem Nat.foldl_toDigits {b : Nat} (hb : 1 < b) {f : Char → Nat} (hf : ∀ d < b, f d.digitChar = d)
    (n : Nat) : (Nat.toDigits b n).foldl (fun v c => b * v + f c) 0 = n := by
  induction n using Nat.strongRecOn with
  | ind n ih =>
    rw [Nat.toDigits_eq_if hb]
    split
    · rename_i hn
      simp [hf n hn]
    · have hdiv : n / b < n := Nat.div_lt_self (by omega) hb
      rw [List.foldl_append, ih (n / b) hdiv]
      simp [hf (n % b) (Nat.mod_lt n (by omega)), Nat.div_add_mod]

/-- A digit character is the digit of its value. -/
theorem Char.eq_digitChar_of_isDigit {c : Char} (h : c.isDigit = true) : c = (c.toNat - 48).digitChar := by
  have hc := Char.isDigit_iff_toNat.1 h
  have h0 : '0'.toNat = 48 := rfl
  have h9 : '9'.toNat = 57 := rfl
  apply Char.toNat_inj.mp
  rw [Nat.toNat_digitChar_of_lt_ten (by omega)]
  omega

/-- Digits after the decimal text of a positive `n` make the decimal text of
what reading on from `n` gives. The induction is on the digits after. -/
theorem Nat.toDigits_append_of_isDigit :
    ∀ (cs : List Char) {n : Nat}, 0 < n → (∀ c ∈ cs, c.isDigit = true) →
      Nat.toDigits 10 n ++ cs = Nat.toDigits 10 (cs.foldl (fun v c => 10 * v + (c.toNat - 48)) n)
  | [], _, _, _ => by simp
  | c :: cs, n, hn, hd => by
    have hc := Char.eq_digitChar_of_isDigit (hd c List.mem_cons_self)
    have hlt : c.toNat - 48 < 10 := by
      have := Char.isDigit_iff_toNat.1 (hd c List.mem_cons_self)
      have h9 : '9'.toNat = 57 := rfl
      omega
    -- one more digit: `n`'s text, then the digit, is the text of `10 * n + digit`
    have hstep : Nat.toDigits 10 n ++ [c] = Nat.toDigits 10 (10 * n + (c.toNat - 48)) := by
      rw [← Nat.toDigits_append_toDigits (by decide) hn hlt, Nat.toDigits_of_lt_base hlt, ← hc]
    calc Nat.toDigits 10 n ++ c :: cs
        = (Nat.toDigits 10 n ++ [c]) ++ cs := by simp
      _ = Nat.toDigits 10 (10 * n + (c.toNat - 48)) ++ cs := by rw [hstep]
      _ = _ := Nat.toDigits_append_of_isDigit cs (by omega) fun c' hc' => hd c' (List.mem_cons_of_mem c hc')

/-- A number of two digits or more does not start with a zero. -/
theorem Nat.head?_toDigits_ne_zero {b n : Nat} (hb : 1 < b) (hn : b ≤ n) : (Nat.toDigits b n).head? ≠ some '0' := by
  induction n using Nat.strongRecOn with
  | ind n ih =>
    rw [Nat.toDigits_of_base_le hb hn, List.head?_append]
    by_cases hq : b ≤ n / b
    · have hne := ih (n / b) (Nat.div_lt_self (by omega) hb) hq
      cases hhead : (Nat.toDigits b (n / b)).head? with
      | none => simp at hhead
      | some d => simpa [hhead] using hne
    · -- the leading digit is that of `n / b`, which is not zero
      rw [Nat.toDigits_of_lt_base (by omega)]
      simp only [List.head?_cons, Option.some_or, ne_eq, Option.some.injEq, Nat.digitChar_eq_zero]
      have := Nat.div_pos hn (by omega : 0 < b)
      omega

/-- Every character of a number's text in base `b` is the digit of a value
below `b`. -/
theorem Nat.exists_digitChar_of_mem_toDigits {b n : Nat} (hb : 1 < b) {c : Char} (h : c ∈ Nat.toDigits b n) :
    ∃ d < b, c = d.digitChar := by
  induction n using Nat.strongRecOn with
  | ind n ih =>
    rw [Nat.toDigits_eq_if hb] at h
    split at h
    · rename_i hn
      exact ⟨n, hn, List.mem_singleton.1 h⟩
    · rcases List.mem_append.1 h with h | h
      · exact ih (n / b) (Nat.div_lt_self (by omega) hb) h
      · exact ⟨n % b, Nat.mod_lt n (by omega), List.mem_singleton.1 h⟩

theorem Nat.isDigit_of_mem_toDigits_ten {n : Nat} {c : Char} (h : c ∈ Nat.toDigits 10 n) : c.isDigit = true :=
  Nat.isDigit_of_mem_toDigits (by decide) (by decide) h

/-- A text of ASCII characters has one byte per character. -/
theorem String.utf8ByteSize_ofList_of_ascii : ∀ {l : List Char}, (∀ c ∈ l, c.val ≤ 127) →
    (String.ofList l).utf8ByteSize = l.length
  | [], _ => rfl
  | c :: l, h => by
    have hc : c.utf8Size = 1 := Char.utf8Size_eq_one_iff.2 (h c List.mem_cons_self)
    have ih := String.utf8ByteSize_ofList_of_ascii fun c' hc' => h c' (List.mem_cons_of_mem c hc')
    simp [String.utf8ByteSize_append, String.utf8ByteSize_singleton, hc, ih]
    omega

namespace Ipv4

/-! ## Octets -/

theorem digitsValue_eq (ds : List Char) : digitsValue ds = ds.foldl (fun v c => 10 * v + (c.toNat - 48)) 0 := rfl

theorem digitsValue_toDigits (n : Nat) : digitsValue (Nat.toDigits 10 n) = n :=
  Nat.foldl_toDigits (by decide) (fun _ hd => Nat.toNat_digitChar_sub_48_of_lt_ten hd) n

/-- One to three digits, with no leading zero on two or three, are the
decimal text of their value. -/
theorem toDigits_digitsValue {ds : List Char} (hne : ds ≠ []) (hd : ∀ c ∈ ds, c.isDigit = true)
    (hz : ds.length > 1 → ds.head? ≠ some '0') : Nat.toDigits 10 (digitsValue ds) = ds := by
  obtain ⟨c, cs, rfl⟩ := List.exists_cons_of_ne_nil hne
  have hc := Char.eq_digitChar_of_isDigit (hd c List.mem_cons_self)
  have hlt : c.toNat - 48 < 10 := by
    have := Char.isDigit_iff_toNat.1 (hd c List.mem_cons_self)
    have h9 : '9'.toNat = 57 := rfl
    omega
  have hval : digitsValue (c :: cs) = cs.foldl (fun v c => 10 * v + (c.toNat - 48)) (c.toNat - 48) := by
    simp [digitsValue_eq]
  rw [hval]
  cases cs with
  | nil =>
    rw [List.foldl_nil, Nat.toDigits_of_lt_base hlt, ← hc]
  | cons c' cs =>
    -- a leading digit that is not zero starts the text
    have hc0 : c ≠ '0' := fun h0 => hz (by simp) (by simp [h0])
    have hpos : 0 < c.toNat - 48 := by
      have hne0 : c.toNat ≠ 48 := fun h => hc0 (Char.toNat_inj.mp h)
      have := Char.isDigit_iff_toNat.1 (hd c List.mem_cons_self)
      have h0 : '0'.toNat = 48 := rfl
      omega
    rw [← Nat.toDigits_append_of_isDigit (c' :: cs) hpos fun x hx => hd x (List.mem_cons_of_mem c hx),
      Nat.toDigits_of_lt_base hlt, ← hc]
    rfl

theorem length_toDigits_le_three {n : Nat} (h : n < 1000) : (Nat.toDigits 10 n).length ≤ 3 :=
  (Nat.length_toDigits_le_iff (by decide) (by decide)).2 h

/-- **An octet's decimal text reads back**, the reader stopping before the
first character that is no digit. -/
theorem scanOctet_toDigits_append {n : Nat} (hn : n ≤ 255) {rest : List Char}
    (hrest : ∀ c ∈ rest.head?, c.isDigit = false) :
    scanOctet (Nat.toDigits 10 n ++ rest) = some (n.toUInt8, rest) := by
  have hlen := length_toDigits_le_three (n := n) (by omega)
  -- the digits read are exactly those of `n`
  have hds : ((Nat.toDigits 10 n ++ rest).take 3).takeWhile Char.isDigit = Nat.toDigits 10 n := by
    rw [List.take_append, List.take_of_length_le hlen,
      List.takeWhile_append_of_pos fun c hc => Nat.isDigit_of_mem_toDigits_ten hc]
    cases rest with
    | nil => simp
    | cons c r =>
      have hc : c.isDigit = false := hrest c rfl
      cases 3 - (Nat.toDigits 10 n).length with
      | zero => simp
      | succ k => simp [hc]
  have hz : ¬((Nat.toDigits 10 n).length > 1 ∧ (Nat.toDigits 10 n).head? = some '0') := by
    rintro ⟨hl, hh⟩
    -- a text of two digits or more belongs to a number of at least 10
    have h10 : 10 ≤ n := by
      rcases Nat.lt_or_ge n 10 with hlt | hge
      · rw [Nat.toDigits_of_lt_base hlt] at hl
        simp at hl
      · exact hge
    exact Nat.head?_toDigits_ne_zero (by decide) h10 hh
  dsimp only [scanOctet]
  rw [hds, digitsValue_toDigits, if_neg (by simp), if_neg (by omega), if_neg hz, List.drop_left]

/-- **An octet read is its decimal text**: what the octet reader accepts is
the text `Nat.toDigits 10` writes for the octet it returns. -/
theorem eq_toDigits_append_of_scanOctet {cs r : List Char} {o : UInt8} (h : scanOctet cs = some (o, r)) :
    cs = Nat.toDigits 10 o.toNat ++ r := by
  unfold scanOctet at h
  -- the digits read are a prefix of the text
  have hpre : (cs.take 3).takeWhile Char.isDigit <+: cs :=
    (List.takeWhile_prefix _).trans (List.take_prefix 3 cs)
  have hdig : ∀ c ∈ (cs.take 3).takeWhile Char.isDigit, c.isDigit = true :=
    List.all_eq_true.1 List.all_takeWhile
  dsimp only at h
  split at h
  · cases h
  · rename_i hne
    split at h
    · cases h
    · rename_i hle
      split at h
      · cases h
      · rename_i hz
        simp only [Option.some.injEq, Prod.mk.injEq] at h
        obtain ⟨rfl, rfl⟩ := h
        have hne' : (cs.take 3).takeWhile Char.isDigit ≠ [] := by simpa using hne
        have hval : ((digitsValue ((cs.take 3).takeWhile Char.isDigit)).toUInt8).toNat =
            digitsValue ((cs.take 3).takeWhile Char.isDigit) := by
          simp only [Nat.toUInt8, UInt8.toNat_ofNat']
          omega
        rw [hval, toDigits_digitsValue hne' hdig fun hl hh => hz ⟨hl, hh⟩]
        exact (List.prefix_iff_eq_append.1 hpre).symm

/-! ## Addresses -/

theorem toList_toText (a : Ipv4) :
    a.toText.toList = Nat.toDigits 10 a.o1.toNat ++ '.' :: Nat.toDigits 10 a.o2.toNat ++ '.' ::
      Nat.toDigits 10 a.o3.toNat ++ '.' :: Nat.toDigits 10 a.o4.toNat := by
  have hdot : (toString ".").toList = ['.'] := rfl
  simp [toText, hdot]

theorem skipDot_eq_some {cs r : List Char} : skipDot cs = some r ↔ cs = '.' :: r := by
  unfold skipDot
  split <;> simp_all

/-- **What the reader accepts.** Reading succeeds exactly on the text of an
address followed by nothing or by a colon; it returns that address and the
length of its text. -/
theorem scan_eq_some_iff {cs : List Char} {a : Ipv4} {n : Nat} :
    scan cs = some (a, n) ↔
      ∃ rest, cs = a.toText.toList ++ rest ∧ (rest = [] ∨ ∃ r, rest = ':' :: r) ∧ n = a.toText.length := by
  constructor
  · intro h
    simp only [scan, Option.bind_eq_bind, Option.bind_eq_some_iff, skipDot_eq_some] at h
    obtain ⟨⟨o1, r1⟩, h1, r1', rfl, ⟨o2, r2⟩, h2, r2', rfl, ⟨o3, r3⟩, h3, r3', rfl, ⟨o4, r4⟩, h4, hend⟩ := h
    -- the end of the text gives the address and the length
    have hfin : (r4 = [] ∨ ∃ r, r4 = ':' :: r) ∧ a = ⟨o1, o2, o3, o4⟩ ∧ n = cs.length - r4.length := by
      split at hend
      · rename_i hnil
        simp only [Option.some.injEq, Prod.mk.injEq] at hend
        exact ⟨.inl hnil, hend.1.symm, hend.2.symm⟩
      · rename_i r hcolon
        simp only [Option.some.injEq, Prod.mk.injEq] at hend
        exact ⟨.inr ⟨r, hcolon⟩, hend.1.symm, hend.2.symm⟩
      · cases hend
    obtain ⟨hr4, rfl, rfl⟩ := hfin
    -- each octet read is its decimal text, so the text read is the address's
    have htext : cs = (⟨o1, o2, o3, o4⟩ : Ipv4).toText.toList ++ r4 := by
      rw [toList_toText, eq_toDigits_append_of_scanOctet h1, eq_toDigits_append_of_scanOctet h2,
        eq_toDigits_append_of_scanOctet h3, eq_toDigits_append_of_scanOctet h4]
      simp
    refine ⟨r4, htext, hr4, ?_⟩
    rw [htext, List.length_append, String.length_toList]
    omega
  · -- rewriting, not substituting: substitution would unfold the text of the address
    rintro ⟨rest, hcs, hrest, hn⟩
    rw [hcs, hn]
    have hle : ∀ o : UInt8, o.toNat ≤ 255 := fun o => by
      have := o.toNat_lt
      omega
    have hdot : ∀ r : List Char, ∀ c ∈ ('.' :: r).head?, c.isDigit = false := by simp
    have hend : ∀ c ∈ rest.head?, c.isDigit = false := by
      rcases hrest with rfl | ⟨r, rfl⟩ <;> simp
    rw [toList_toText]
    simp only [List.append_assoc, List.cons_append, scan, Option.bind_eq_bind]
    -- the four octets read back one after the other, each stopping at a dot or at the end
    rw [scanOctet_toDigits_append (hle _) (hdot _)]
    simp only [Option.bind_some, skipDot]
    rw [scanOctet_toDigits_append (hle _) (hdot _)]
    simp only [Option.bind_some]
    rw [scanOctet_toDigits_append (hle _) (hdot _)]
    simp only [Option.bind_some]
    rw [scanOctet_toDigits_append (hle _) hend]
    have hlen : a.toText.length = (Nat.toDigits 10 a.o1.toNat ++ '.' :: (Nat.toDigits 10 a.o2.toNat ++
        '.' :: (Nat.toDigits 10 a.o3.toNat ++ '.' :: Nat.toDigits 10 a.o4.toNat))).length := by
      rw [← String.length_toList, toList_toText]
      simp
    rcases hrest with rfl | ⟨r, rfl⟩
    · simp [hlen]
    · simp [hlen]
      omega

/-! ## Canonical literals -/

/-- The text of one octet as written canonically: one to three decimal
digits, with no leading zero on two or three, whose value is the octet and
so at most 255. -/
structure OctetText (ds : List Char) (o : UInt8) : Prop where
  ne_nil : ds ≠ []
  length_le : ds.length ≤ 3
  isDigit : ∀ c ∈ ds, c.isDigit = true
  no_leading_zero : 1 < ds.length → ds.head? ≠ some '0'
  value : digitsValue ds = o.toNat

/-- A canonical dotted-decimal literal of `a`: the canonical texts of its
four octets, a dot between each two. -/
def Literal (cs : List Char) (a : Ipv4) : Prop :=
  ∃ d₁ d₂ d₃ d₄, cs = d₁ ++ '.' :: d₂ ++ '.' :: d₃ ++ '.' :: d₄ ∧
    OctetText d₁ a.o1 ∧ OctetText d₂ a.o2 ∧ OctetText d₃ a.o3 ∧ OctetText d₄ a.o4

/-- An octet has one canonical text, its decimal digits. -/
theorem octetText_iff {ds : List Char} {o : UInt8} : OctetText ds o ↔ ds = Nat.toDigits 10 o.toNat := by
  constructor
  · intro h
    rw [← h.value, toDigits_digitsValue h.ne_nil h.isDigit h.no_leading_zero]
  · rintro rfl
    have hlt := o.toNat_lt
    refine ⟨Nat.toDigits_ne_nil, length_toDigits_le_three (by omega),
      fun c hc => Nat.isDigit_of_mem_toDigits_ten hc, fun hl => Nat.head?_toDigits_ne_zero (by decide) ?_,
      digitsValue_toDigits _⟩
    -- a text of two digits or more is that of a number of at least 10
    rcases Nat.lt_or_ge o.toNat 10 with hsmall | hbig
    · rw [Nat.toDigits_of_lt_base hsmall] at hl
      simp at hl
    · exact hbig

/-- An address has one canonical literal, its text. -/
theorem literal_iff {cs : List Char} {a : Ipv4} : Literal cs a ↔ cs = a.toText.toList := by
  simp only [Literal, octetText_iff, toList_toText]
  constructor
  · rintro ⟨d₁, d₂, d₃, d₄, hcs, h₁, h₂, h₃, h₄⟩
    rw [hcs, h₁, h₂, h₃, h₄]
  · rintro rfl
    exact ⟨_, _, _, _, rfl, rfl, rfl, rfl, rfl⟩

/-- A text that the reader takes whole is the canonical literal of the
address it reads. -/
theorem literal_of_scan {cs : List Char} {a : Ipv4} (h : scan cs = some (a, cs.length)) : Literal cs a := by
  obtain ⟨rest, hcs, -, hlen⟩ := scan_eq_some_iff.1 h
  have hrest : rest = [] := by
    have := congrArg List.length hcs
    simp only [List.length_append, String.length_toList] at this
    exact List.eq_nil_of_length_eq_zero (by omega)
  rw [literal_iff, hcs, hrest, List.append_nil]

/-- Every character of an address's text is ASCII: a digit or a dot. -/
theorem toText_ascii (a : Ipv4) : ∀ c ∈ a.toText.toList, c.val ≤ 127 := by
  have hdigit : ∀ n : Nat, ∀ c ∈ Nat.toDigits 10 n, c.val ≤ 127 := fun n c h => by
    have hc := Char.isDigit_iff_toNat.1 (Nat.isDigit_of_mem_toDigits_ten h)
    have h9 : '9'.toNat = 57 := rfl
    have hval : c.toNat = c.val.toNat := rfl
    rw [UInt32.le_iff_toNat_le]
    show c.val.toNat ≤ 127
    omega
  have hdot : ('.' : Char).val ≤ 127 := by decide
  rw [toList_toText]
  simp only [List.forall_mem_append, List.forall_mem_cons, and_assoc]
  exact ⟨hdigit _, hdot, hdigit _, hdot, hdigit _, hdot, hdigit _⟩

/-- The reader's count of characters is a count of bytes. -/
theorem toText_utf8ByteSize (a : Ipv4) : a.toText.utf8ByteSize = a.toText.length := by
  rw [← String.ofList_toList (s := a.toText), String.utf8ByteSize_ofList_of_ascii a.toText_ascii,
    String.length_ofList]

/-- **The reader accepts exactly the canonical literals.** A text is read
as address `a`, `n` bytes used, exactly when it starts with the text of `a`
and goes on with nothing or with a colon, `n` being the length of that text
in bytes. Reading the text of an address gives the address back, and that
text is the one canonical literal of the address. -/
theorem scan_canonical (s : String) (a : Ipv4) (n : Nat) :
    (scan s.toList = some (a, n) ↔
      ∃ r, s = a.toText ++ r ∧ (r = "" ∨ ∃ r', r = ":" ++ r') ∧ n = a.toText.utf8ByteSize) ∧
    parse? a.toText = some a ∧ ∀ cs, Literal cs a ↔ cs = a.toText.toList := by
  refine ⟨?_, ?_, fun cs => literal_iff⟩
  · rw [scan_eq_some_iff, toText_utf8ByteSize]
    constructor
    · rintro ⟨rest, hs, hrest, hn⟩
      refine ⟨String.ofList rest, String.toList_inj.1 (by simp [hs]), ?_, hn⟩
      rcases hrest with rfl | ⟨r, rfl⟩
      · exact .inl rfl
      · exact .inr ⟨String.ofList r, String.toList_inj.1 (by simp)⟩
    · rintro ⟨r, hs, hr, hn⟩
      refine ⟨r.toList, by rw [hs, String.toList_append], ?_, hn⟩
      rcases hr with rfl | ⟨r', rfl⟩
      · exact .inl rfl
      · exact .inr ⟨r'.toList, by simp⟩
  · simp only [parse?, Option.map_eq_some_iff]
    exact ⟨(a, a.toText.length), scan_eq_some_iff.2 ⟨[], by simp, .inl rfl, rfl⟩, rfl⟩

end Ipv4

end CimBroker.Address
