import CimBroker.Address.Locator
import CimBroker.Proofs.Address.Families
import CimBroker.Proofs.Address.Ipv6Text
import CimBroker.Proofs.Stream.Words
import CimBroker.Proofs.Text.Cut

/-!
# Writing a host or a locator and reading it back

`Host.toText` writes an IPv4 address in dotted decimal, an IPv6 address in
its canonical short form and a name as it is; `Locator.toText` adds the port
after a colon, and puts an IPv6 address in brackets when a port follows.
This module shows that what the readers return is written as a text they
read back to the same value.

The locator reader decides on the shape of its text before it reads a host:
a leading `[` opens a bracketed IPv6 address, two or more colons make the
text a bare IPv6 address, and otherwise the first colon starts the port. So
the round trip rests on what the characters of a written host are:

* the IPv6 reader takes only hexadecimal digits, colons and dots, so a
  canonical IPv6 text has no bracket (`Ipv6.addrChar_of_readBytes`);
* a canonical IPv6 text has at least two colons: eight groups have seven
  between them, and every shorter form holds a `::`
  (`Ipv6.two_le_count_colon_toText`);
* a dotted quad and a host name have neither a colon nor a bracket
  (`Host.plain_toText`);
* a port is written in decimal without leading zeros, which the port reader
  takes back (`Locator.parsePort_toDigits`).

## Main results

* `Host.parse_toText` — a host read from a text reads back from its own text.
* `Locator.parse_toText_of_host` — a locator whose host reads back reads back whole.
* `Locator.parse_toText` — a locator read from a text reads back from its own text.
-/

namespace CimBroker.Address

/-! ## The characters of written addresses -/

/-- Every character of a dotted quad is a digit or a dot. -/
theorem Ipv4.mem_toText (v : Ipv4) : ∀ c ∈ v.toText.toList, c.isDigit = true ∨ c = '.' := by
  intro c hc
  have hd : ∀ n, c ∈ Nat.toDigits 10 n → c.isDigit = true := fun _ => Nat.isDigit_of_mem_toDigits_ten
  rw [Ipv4.toList_toText] at hc
  simp only [List.mem_append, List.mem_cons] at hc
  -- a character of one of the four octets, or one of the three dots
  rcases hc with ((h | h | h) | h | h) | h | h
  · exact .inl (hd _ h)
  · exact .inr h
  · exact .inl (hd _ h)
  · exact .inr h
  · exact .inl (hd _ h)
  · exact .inr h
  · exact .inl (hd _ h)

namespace Ipv6

/-- Every character the reader takes is a hexadecimal digit, a colon or a
dot. A dot hands the text read since the start of the group in progress
(`token`) to the IPv4 reader, which must take all of it, so what is left is
digits and dots too. The induction is on the text; the invariant is that the
text left is an end of `token`. -/
theorem addrChar_of_readChars :
    ∀ (cs : List Char) (st st' : Reader), cs <:+ st.token → readChars st cs = some st' →
      ∀ c ∈ cs, (hexValue c).isSome ∨ c = ':' ∨ c = '.'
  | [], _, _, _, _ => by simp
  | ch :: rest, st, st', hsuf, h => by
    have hrest : rest <:+ st.token := (List.suffix_cons ch rest).trans hsuf
    unfold readChars at h
    split at h
    · rename_i d hd
      split at h
      · cases h
      · intro c hc
        rcases List.mem_cons.1 hc with rfl | hc
        · simp [hd]
        · exact addrChar_of_readChars rest _ st' (by exact hrest) h c hc
    · rename_i hd
      split at h
      · rename_i hcolon
        intro c hc
        rcases List.mem_cons.1 hc with rfl | hc
        · exact .inr (.inl hcolon)
        · split at h
          · split at h
            · cases h
            · exact addrChar_of_readChars rest _ st' (List.suffix_refl rest) h c hc
          · split at h
            · cases h
            · split at h
              · cases h
              · exact addrChar_of_readChars rest _ st' (List.suffix_refl rest) h c hc
      · split at h
        · split at h
          · rename_i v4 used hscan
            split at h
            · rename_i hused
              obtain ⟨r, htok, -, hn⟩ := Ipv4.scan_eq_some_iff.1 hscan
              have hr : r = [] := by
                have := congrArg List.length htok
                rw [List.length_append, String.length_toList] at this
                exact List.eq_nil_of_length_eq_zero (by omega)
              intro c hc
              have hc' : c ∈ st.token := hsuf.subset hc
              rw [htok, hr, List.append_nil] at hc'
              rcases Ipv4.mem_toText v4 c hc' with hd | hd
              · exact .inl (by simp [hexValue_of_isDigit hd])
              · exact .inr (.inr hd)
            · cases h
          · cases h
        · cases h

/-- **The IPv6 reader takes only hexadecimal digits, colons and dots.** -/
theorem addrChar_of_readBytes {cs : List Char} {bytes : List UInt8} (h : readBytes cs = some bytes) :
    ∀ c ∈ cs, (hexValue c).isSome ∨ c = ':' ∨ c = '.' := by
  rcases cs with _ | ⟨c₀, cs⟩
  · simp
  by_cases h0 : c₀ = ':'
  · subst h0
    rcases cs with _ | ⟨c₁, cs⟩
    · simp [readBytes] at h
    by_cases h1 : c₁ = ':'
    · -- a text that starts with `::` is read from its second colon
      subst h1
      rw [readBytes_colon_colon] at h
      obtain ⟨st', hst', -⟩ := Option.bind_eq_some_iff.1 h
      intro c hc
      rcases List.mem_cons.1 hc with rfl | hc
      · exact .inr (.inl rfl)
      · exact addrChar_of_readChars _ _ st' (List.suffix_refl _) hst' c hc
    · simp [readBytes, h1] at h
  · rw [readBytes_of_ne_colon (by simp [h0])] at h
    obtain ⟨st', hst', -⟩ := Option.bind_eq_some_iff.1 h
    exact addrChar_of_readChars _ _ st' (List.suffix_refl _) hst'

/-- **A canonical IPv6 text has at least two colons**: eight groups have
seven between them, and every shorter form holds a `::`. -/
theorem two_le_count_colon_toText (a : Ipv6) : 2 ≤ a.toText.toList.count ':' := by
  unfold toText
  dsimp only
  split
  · -- eight groups, with a colon between each two
    obtain ⟨w, x, y, ws, hws⟩ : ∃ w x y ws, a.words = w :: x :: y :: ws := by
      match h : a.words, a.length_words with
      | w :: x :: y :: ws, _ => exact ⟨w, x, y, ws, rfl⟩
    rw [hws, toList_intercalate_groupText]
    simp [List.count_append]
    omega
  · rename_i b l hrun
    split
    · -- `::a.b.c.d`
      simp
    · split
      · -- `::ffff:a.b.c.d`
        simp
      · -- groups around `::`; a last colon stands for a run that ends the address
        obtain ⟨hl, hzero⟩ := longestZeroRun_spec hrun
        have hle : b + l ≤ 8 := by simpa using hzero.add_le
        have hend : (if b + l = 8 then ":" else "") = (if a.words.drop (b + l) = [] then ":" else "") := by
          by_cases h8 : b + l = 8
          · rw [if_pos h8, if_pos (List.drop_eq_nil_of_le (by simp; omega))]
          · rw [if_neg h8, if_neg (by simp; omega)]
        rw [hend, String.append_assoc, String.append_assoc, String.toList_append, toList_colon_join_groupText]
        simp [List.count_append]
        omega

end Ipv6

/-- A canonical IPv6 text holds no bracket. -/
theorem Ipv6.not_mem_bracket_toText (a : Ipv6) : '[' ∉ a.toText.toList ∧ ']' ∉ a.toText.toList := by
  have hchars := Ipv6.addrChar_of_readBytes (Ipv6.readBytes_toText a)
  refine ⟨fun h => ?_, fun h => ?_⟩
  · rcases hchars '[' h with h | h | h <;> simp_all [Ipv6.hexValue]
  · rcases hchars ']' h with h | h | h <;> simp_all [Ipv6.hexValue]

/-! ## Hosts -/

namespace Host

/-- No host is of the invalid family. -/
theorem family_ne_invalid (h : Host) : h.family ≠ .invalid := by
  cases h <;> simp [family]

/-- **A host read from a text reads back from its own text**: an address is
written in the form its reader takes, and a name is the text it was read
from. -/
theorem parse_toText {s : String} {h : Host} (hs : parse s = .ok h) : parse h.toText = .ok h := by
  cases h with
  | ipv4 v => exact parse_eq_ok_ipv4_iff.2 (Ipv4.scan_eq_some_iff.2 ⟨[], by simp [toText], .inl rfl, rfl⟩)
  | ipv6 a => exact parse_eq_ok_ipv6_iff.2 (Ipv6.parse?_toText a)
  | name n =>
    obtain ⟨-, rfl⟩ := parse_eq_ok_name_iff.1 hs
    exact hs

/-- The text of a host that is no IPv6 address has neither a colon nor a
bracket: it is a dotted quad or a name. -/
theorem plain_toText {h : Host} (hh : parse h.toText = .ok h) (h6 : h.family ≠ .ipv6) :
    ':' ∉ h.toText.toList ∧ '[' ∉ h.toText.toList := by
  cases h with
  | ipv4 v =>
    have hchars := Ipv4.mem_toText v
    refine ⟨fun hc => ?_, fun hc => ?_⟩
    · rcases hchars ':' hc with hc | hc <;> simp_all
    · rcases hchars '[' hc with hc | hc <;> simp_all
  | ipv6 a => exact absurd rfl h6
  | name n =>
    obtain ⟨hvalid, -⟩ := parse_eq_ok_name_iff.1 hh
    have hchars := Hostname.mem_of_scanLabels _ _ _ hvalid
    refine ⟨fun hc => ?_, fun hc => ?_⟩
    · rcases hchars ':' hc with hc | hc <;> simp_all
    · rcases hchars '[' hc with hc | hc <;> simp_all [Hostname.isLabelChar]

end Host

/-! ## Locators -/

namespace Locator

/-- A port written in decimal is read back. -/
theorem parsePort_toDigits (p : UInt16) (text : String) : parsePort (Nat.toDigits 10 p.toNat) text = .ok p := by
  have hp := p.toNat_lt
  unfold parsePort
  rw [if_neg (by simpa [Nat.toDigits_ne_nil] using fun _ => Nat.isDigit_of_mem_toDigits_ten),
    Ipv4.digitsValue_toDigits, if_pos (by omega)]
  simp

/-- A text with neither a colon nor a bracket is read as a host alone. -/
theorem parse_of_host {t : String} {h : Host} (hcolon : ':' ∉ t.toList) (hbracket : '[' ∉ t.toList)
    (hh : Host.parse t = .ok h) : parse t = .ok ⟨h, none⟩ := by
  unfold parse
  split
  · rename_i rest heq
    exact absurd (heq ▸ List.mem_cons_self) hbracket
  · -- no colon: the whole text is the host
    rw [if_neg (by simp [List.count_eq_zero.2 hcolon]), Text.dropWhile_ne_eq_nil.2 hcolon]
    simp [hh]

/-- A host text with neither a colon nor a bracket, then a colon and a port
in decimal, is read as that host and port. -/
theorem parse_of_host_port {t : String} {h : Host} (hcolon : ':' ∉ t.toList) (hbracket : '[' ∉ t.toList)
    (hh : Host.parse t = .ok h) (p : UInt16) : parse (t ++ ":" ++ toString p.toNat) = .ok ⟨h, some p⟩ := by
  have hdigits : ':' ∉ Nat.toDigits 10 p.toNat := fun h => by
    simpa using Nat.isDigit_of_mem_toDigits_ten h
  have htext : (t ++ ":" ++ toString p.toNat).toList = t.toList ++ ':' :: Nat.toDigits 10 p.toNat := by
    simp
  unfold parse
  rw [htext]
  split
  · -- the text starts with the host, or with the colon when the host is empty
    rename_i rest heq
    cases ht : t.toList with
    | nil => simp [ht] at heq
    | cons c cs =>
      rw [ht, List.cons_append, List.cons.injEq] at heq
      exact absurd (by rw [ht, heq.1]; exact List.mem_cons_self) hbracket
  · -- one colon: the host before it, the port after it
    rw [if_neg (by simp [List.count_eq_zero.2 hcolon, List.count_eq_zero.2 hdigits]),
      Text.dropWhile_ne_append _ hcolon, Text.takeWhile_ne_append _ hcolon, String.ofList_toList]
    dsimp only
    rw [parsePort_toDigits, Stream.Except.ok_bind, hh]
    rfl

/-- An IPv6 address in brackets, then a colon and a port in decimal, is read
as that address and port. -/
theorem parse_bracketed (a : Ipv6) (p : UInt16) :
    parse ("[" ++ a.toText ++ "]:" ++ toString p.toNat) = .ok ⟨.ipv6 a, some p⟩ := by
  obtain ⟨-, hclose⟩ := Ipv6.not_mem_bracket_toText a
  have htext : ("[" ++ a.toText ++ "]:" ++ toString p.toNat).toList =
      '[' :: (a.toText.toList ++ ']' :: ':' :: Nat.toDigits 10 p.toNat) := by
    simp
  unfold parse
  rw [htext]
  split
  · -- the address runs to the first `]`, and the port follows `]:`
    rename_i rest heq
    obtain rfl := (List.cons.inj heq).2
    rw [Text.dropWhile_ne_append _ hclose]
    dsimp only
    rw [Text.takeWhile_ne_append _ hclose, String.ofList_toList, Ipv6.parse?_toText]
    simp [parsePort_toDigits]
  · rename_i hopen
    exact absurd rfl (hopen _)

/-- A bare canonical IPv6 text, with its two colons or more, is read as that
address with no port. -/
theorem parse_ipv6 (a : Ipv6) : parse a.toText = .ok ⟨.ipv6 a, none⟩ := by
  obtain ⟨hopen, -⟩ := Ipv6.not_mem_bracket_toText a
  unfold parse
  split
  · rename_i rest heq
    exact absurd (heq ▸ List.mem_cons_self) hopen
  · rw [if_pos (by have := Ipv6.two_le_count_colon_toText a; omega), Ipv6.parse?_toText]

/-- The host of a locator read from a text reads back from its own text. -/
theorem parse_host_toText {s : String} {l : Locator} (hs : parse s = .ok l) :
    Host.parse l.host.toText = .ok l.host := by
  have h6 : ∀ a, Host.parse (Host.ipv6 a).toText = .ok (.ipv6 a) := fun a =>
    Host.parse_eq_ok_ipv6_iff.2 (Ipv6.parse?_toText a)
  unfold parse at hs
  split at hs
  · -- in brackets: an IPv6 address
    dsimp only at hs
    split at hs
    · cases hs
    · split at hs
      · cases hs
      · split at hs
        · cases hs
          exact h6 _
        · obtain ⟨port, -, hport⟩ := Stream.Except.bind_eq_ok.1 hs
          cases hport
          exact h6 _
        · cases hs
  · split at hs
    · -- two colons or more: an IPv6 address
      split at hs
      · cases hs
        exact h6 _
      · cases hs
    · -- a host, and a port after the first colon if there is one
      split at hs
      · obtain ⟨host, hhost, hl⟩ := Stream.Except.bind_eq_ok.1 hs
        cases hl
        exact Host.parse_toText hhost
      · obtain ⟨port, -, hs⟩ := Stream.Except.bind_eq_ok.1 hs
        obtain ⟨host, hhost, hl⟩ := Stream.Except.bind_eq_ok.1 hs
        cases hl
        exact Host.parse_toText hhost

/-- **A locator whose host reads back reads back whole.** -/
theorem parse_toText_of_host {l : Locator} (hh : Host.parse l.host.toText = .ok l.host) : parse l.toText = .ok l := by
  obtain ⟨h, port⟩ := l
  by_cases h6 : h.family = .ipv6
  · -- an IPv6 host is written bare, or in brackets before a port
    obtain ⟨a, rfl⟩ : ∃ a, h = .ipv6 a := by
      cases h with
      | ipv6 a => exact ⟨a, rfl⟩
      | ipv4 v => cases h6
      | name n => cases h6
    cases port with
    | none => exact parse_ipv6 a
    | some p => exact parse_bracketed a p
  · -- any other host is written as it is, the port after a colon
    obtain ⟨hcolon, hbracket⟩ := Host.plain_toText hh h6
    cases port with
    | none =>
      have htext : toText ⟨h, none⟩ = h.toText := by cases h <;> rfl
      rw [htext]
      exact parse_of_host hcolon hbracket hh
    | some p =>
      have htext : toText ⟨h, some p⟩ = h.toText ++ ":" ++ toString p.toNat := by
        cases h with
        | ipv6 a => exact absurd rfl h6
        | ipv4 v => rfl
        | name n => rfl
      rw [htext]
      exact parse_of_host_port hcolon hbracket hh p

/-- **A locator read from a text reads back from its own text.** -/
theorem parse_toText {s : String} {l : Locator} (hs : parse s = .ok l) : parse l.toText = .ok l :=
  parse_toText_of_host (parse_host_toText hs)

end Locator

end CimBroker.Address
