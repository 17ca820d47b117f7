import CimBroker.Address.Ipv6
import CimBroker.Proofs.Address.Ipv4

/-!
# What the IPv6 reader does with each piece of text

The reader (`Ipv6.readChars`) walks the text one character at a time. This
module states what it does with the pieces a written address is made of,
so that a whole text can be read by chaining them:

* the lowercase hexadecimal text of a group (`Nat.toDigits 16`), which it
  accumulates into the group being read;
* a group followed by a colon, which stores the group's two bytes;
* a colon where no group is pending, which marks the place of `::`;
* a dotted IPv4 tail, which it hands to the IPv4 reader and which ends the
  text.

It also shows where reading must fail: a text without a colon never fills
sixteen bytes, and a text that starts with a dotted quad is handed whole to
the IPv4 reader, which leaves nothing for the groups.

## Main results

* `Ipv6.readChars_group_colon`, `Ipv6.readChars_gap`,
  `Ipv6.readChars_groups_colon`, `Ipv6.readChars_groups_finish` — reading
  groups and the `::` mark.
* `Ipv6.readChars_dotted` — reading a dotted tail.
* `Ipv6.mem_of_readBytes` — every text read has a colon.
* `Ipv6.readBytes_eq_none_of_scan` — no text that starts with a dotted quad
  is read.
-/

namespace CimBroker.Address.Ipv6

/-! ## Digits -/

theorem hexValue_digitChar {d : Nat} (h : d < 16) : hexValue d.digitChar = some d := by
  revert d
  decide

theorem hexValue_of_isDigit {c : Char} (h : c.isDigit = true) : hexValue c = some (c.toNat - 48) := by
  have hc := Char.isDigit_iff_toNat.1 h
  unfold hexValue
  rw [if_pos]
  · rfl
  · simp only [Char.le_def, UInt32.le_iff_toNat_le]
    exact hc

@[simp] theorem hexValue_colon : hexValue ':' = none := by decide

@[simp] theorem hexValue_dot : hexValue '.' = none := by decide

/-- The text of a group: lowercase hexadecimal without leading zeros. -/
theorem toList_groupText (w : Nat) : (groupText w).toList = Nat.toDigits 16 w := String.toList_ofList

theorem isSome_hexValue_of_mem_toDigits {w : Nat} {c : Char} (h : c ∈ Nat.toDigits 16 w) :
    (hexValue c).isSome := by
  obtain ⟨d, hd, rfl⟩ := Nat.exists_digitChar_of_mem_toDigits (by decide) h
  simp [hexValue_digitChar hd]

theorem foldl_hexValue_toDigits (w : Nat) :
    (Nat.toDigits 16 w).foldl (fun v c => v * 16 + (hexValue c).getD 0) 0 = w := by
  have hcomm : (fun v c => v * 16 + (hexValue c).getD 0) = fun v c => 16 * v + (hexValue c).getD 0 := by
    funext v c
    rw [Nat.mul_comm]
  rw [hcomm]
  exact Nat.foldl_toDigits (by decide) (fun d hd => by simp [hexValue_digitChar hd]) w

theorem length_toDigits_le_four {w : Nat} (h : w < 65536) : (Nat.toDigits 16 w).length ≤ 4 :=
  (Nat.length_toDigits_le_iff (by decide) (by decide)).2 h

/-! ## One character at a time -/

/-- A hexadecimal digit goes into the group being read. -/
theorem readChars_hex {st : Reader} {ch : Char} {d : Nat} (hd : hexValue ch = some d) (h4 : st.digits < 4)
    (rest : List Char) :
    readChars st (ch :: rest) = readChars { st with group := st.group * 16 + d, digits := st.digits + 1 } rest := by
  simp only [readChars, hd]
  rw [if_neg (by omega)]

/-- A colon with no group pending marks the place of `::`. -/
theorem readChars_gap {out : List UInt8} {g : Nat} {tok : List Char} (rest : List Char) :
    readChars ⟨out, none, g, 0, tok⟩ (':' :: rest) = readChars ⟨out, some out.length, g, 0, rest⟩ rest := by
  simp [readChars]

/-- A colon after a group stores the group's two bytes, unless the text ends
there or the bytes would not fit. -/
theorem readChars_colon {st : Reader} (hd : st.digits ≠ 0) {rest : List Char} (hrest : rest ≠ [])
    (hfit : st.out.length + 2 ≤ 16) :
    readChars st (':' :: rest) =
      readChars { st with out := st.out ++ groupBytes st.group, group := 0, digits := 0, token := rest } rest := by
  have hne : rest.isEmpty = false := by
    cases rest with
    | nil => exact absurd rfl hrest
    | cons _ _ => rfl
  simp [readChars, hd, hne, show ¬ (16 < st.out.length + 2) by omega]

/-- A dot hands the text of the group being read, and what follows, to the
IPv4 reader; reading ends there, and succeeds if that reader took all of it. -/
theorem readChars_dot {st : Reader} (hfit : st.out.length + 4 ≤ 16) {v4 : Ipv4} {used : Nat}
    (hscan : Ipv4.scan st.token = some (v4, used)) (rest : List Char) :
    readChars st ('.' :: rest) =
      if used = st.token.length then some { st with out := st.out ++ v4.toList, digits := 0 } else none := by
  simp [readChars, hfit, hscan]

/-! ## Groups -/

/-- Hexadecimal digits accumulate into the group being read, as long as the
group keeps to four digits. The induction is on the digits. -/
theorem readChars_hexDigits :
    ∀ (ds : List Char) (st : Reader) (rest : List Char), (∀ c ∈ ds, (hexValue c).isSome) →
      st.digits + ds.length ≤ 4 →
      readChars st (ds ++ rest) =
        readChars { st with group := ds.foldl (fun v c => v * 16 + (hexValue c).getD 0) st.group,
                            digits := st.digits + ds.length } rest
  | [], st, rest, _, _ => by simp
  | c :: ds, st, rest, hhex, hlen => by
    obtain ⟨d, hd⟩ := Option.isSome_iff_exists.1 (hhex c List.mem_cons_self)
    rw [List.cons_append, readChars_hex hd (by simp at hlen; omega),
      readChars_hexDigits ds _ rest (fun c' hc' => hhex c' (List.mem_cons_of_mem c hc')) (by simp at hlen ⊢; omega)]
    simp [hd, Nat.add_assoc, Nat.add_comm 1]

/-- The text of a group is read as that group, pending. -/
theorem readChars_group {out : List UInt8} {gap : Option Nat} {tok : List Char} {w : Nat} (hw : w < 65536)
    (rest : List Char) :
    readChars ⟨out, gap, 0, 0, tok⟩ (Nat.toDigits 16 w ++ rest) =
      readChars ⟨out, gap, w, (Nat.toDigits 16 w).length, tok⟩ rest := by
  rw [readChars_hexDigits _ _ rest (fun _ hc => isSome_hexValue_of_mem_toDigits hc)
    (by simpa using length_toDigits_le_four hw)]
  simp [foldl_hexValue_toDigits]

/-- **A group and a colon**: the group's two bytes are stored, and reading
goes on at the next group. -/
theorem readChars_group_colon {out : List UInt8} {gap : Option Nat} {tok : List Char} {w : Nat}
    (hw : w < 65536) {rest : List Char} (hrest : rest ≠ []) (hfit : out.length + 2 ≤ 16) :
    readChars ⟨out, gap, 0, 0, tok⟩ (Nat.toDigits 16 w ++ ':' :: rest) =
      readChars ⟨out ++ groupBytes w, gap, 0, 0, rest⟩ rest := by
  rw [readChars_group hw, readChars_colon (by simp) hrest hfit]

/-- Groups each followed by a colon are stored one after the other. The
induction is on the groups. -/
theorem readChars_groups_colon {gap : Option Nat} {rest : List Char} (hrest : rest ≠ []) :
    ∀ (ws : List Nat) (out : List UInt8) (tok : List Char), (∀ w ∈ ws, w < 65536) →
      out.length + 2 * ws.length ≤ 16 →
      readChars ⟨out, gap, 0, 0, tok⟩ (ws.flatMap (fun w => Nat.toDigits 16 w ++ [':']) ++ rest) =
        readChars ⟨out ++ ws.flatMap groupBytes, gap, 0, 0, if ws = [] then tok else rest⟩ rest
  | [], out, tok, _, _ => by simp
  | w :: ws, out, tok, hw, hfit => by
    have hne : ws.flatMap (fun w => Nat.toDigits 16 w ++ [':']) ++ rest ≠ [] := by simp [hrest]
    simp only [List.flatMap_cons, List.append_assoc, List.cons_append, List.nil_append]
    rw [readChars_group_colon (hw w List.mem_cons_self) hne (by simp at hfit; omega),
      readChars_groups_colon hrest ws _ _ (fun w' hw' => hw w' (List.mem_cons_of_mem w hw'))
        (by simp [groupBytes] at hfit ⊢; omega)]
    cases ws with
    | nil => simp
    | cons _ _ => simp

/-! ## Finishing -/

/-- With no `::`, reading finishes with the bytes stored, if there are
sixteen. -/
theorem finish_none (out : List UInt8) (g : Nat) (tok : List Char) :
    finish ⟨out, none, g, 0, tok⟩ = if out.length = 16 then some out else none := by
  simp [finish]

/-- With `::`, reading finishes with the zeros it stands for put in its
place, if it stands for at least one group. -/
theorem finish_gap (out : List UInt8) (p g : Nat) (tok : List Char) :
    finish ⟨out, some p, g, 0, tok⟩ =
      if out.length = 16 then none else some (out.take p ++ List.replicate (16 - out.length) 0 ++ out.drop p) := by
  simp [finish]

/-- A group still pending when the text ends is stored first. -/
theorem finish_pending (out : List UInt8) (gap : Option Nat) (w d : Nat) (tok : List Char)
    (hfit : out.length + 2 ≤ 16) :
    finish ⟨out, gap, w, d + 1, tok⟩ = finish ⟨out ++ groupBytes w, gap, 0, 0, tok⟩ := by
  simp [finish, show ¬ (16 < out.length + 2) by omega]

/-- **Groups to the end of the text**: groups separated by colons, the last
one ending the text, are stored one after the other, the last when reading
finishes. The induction is on the groups after the first. -/
theorem readChars_groups_finish {gap : Option Nat} :
    ∀ (ws : List Nat) (w : Nat) (out : List UInt8) (tok : List Char), (∀ x ∈ w :: ws, x < 65536) →
      out.length + 2 * (ws.length + 1) ≤ 16 →
      (readChars ⟨out, gap, 0, 0, tok⟩ (Nat.toDigits 16 w ++ ws.flatMap (fun x => ':' :: Nat.toDigits 16 x)) >>=
        finish) = finish ⟨out ++ (w :: ws).flatMap groupBytes, gap, 0, 0, tok⟩
  | [], w, out, tok, hw, hfit => by
    have hlen : (Nat.toDigits 16 w).length = (Nat.toDigits 16 w).length - 1 + 1 := by
      have := Nat.length_toDigits_pos (b := 16) (n := w)
      omega
    -- the last group is still pending when the text ends
    rw [List.flatMap_nil, List.append_nil, ← List.append_nil (Nat.toDigits 16 w),
      readChars_group (hw w List.mem_cons_self), readChars, hlen]
    simp only [Option.bind_eq_bind, Option.bind_some, List.flatMap_cons, List.flatMap_nil, List.append_nil]
    exact finish_pending _ _ _ _ _ (by simp at hfit; omega)
  | x :: ws, w, out, tok, hw, hfit => by
    have hne : Nat.toDigits 16 x ++ ws.flatMap (fun x => ':' :: Nat.toDigits 16 x) ≠ [] := by simp
    rw [List.flatMap_cons, List.cons_append, readChars_group_colon (hw w List.mem_cons_self) hne
      (by simp at hfit; omega),
      readChars_groups_finish ws x _ _ (fun y hy => hw y (List.mem_cons_of_mem w hy))
        (by simp [groupBytes] at hfit ⊢; omega)]
    simp only [List.flatMap_cons, List.append_assoc]
    -- `finish` does not read the token
    rfl

/-! ## Dotted tails -/

/-- **A dotted quad where a group starts**: its first octet is read as hex
digits up to the dot, and then the whole text from there goes to the IPv4
reader. Reading ends there: with the four bytes stored if that reader took
all of the text, and failing if it stopped at a colon. -/
theorem readChars_of_scan {cs : List Char} {v : Ipv4} {n : Nat} (hscan : Ipv4.scan cs = some (v, n))
    {out : List UInt8} {gap : Option Nat} (hfit : out.length + 4 ≤ 16) :
    ∃ g, readChars ⟨out, gap, 0, 0, cs⟩ cs =
      if n = cs.length then some ⟨out ++ v.toList, gap, g, 0, cs⟩ else none := by
  obtain ⟨rest, hcs, -, -⟩ := Ipv4.scan_eq_some_iff.1 hscan
  simp only [Ipv4.toList_toText, List.append_assoc, List.cons_append] at hcs
  subst hcs
  -- the first octet's digits are hexadecimal digits too, and there are at most three
  have hhex : ∀ c ∈ Nat.toDigits 10 v.o1.toNat, (hexValue c).isSome := fun c hc => by
    simp [hexValue_of_isDigit (Nat.isDigit_of_mem_toDigits_ten hc)]
  have hlen : (Nat.toDigits 10 v.o1.toNat).length ≤ 3 :=
    Ipv4.length_toDigits_le_three (by have := v.o1.toNat_lt; omega)
  rw [readChars_hexDigits _ _ _ hhex (by simp; omega)]
  exact ⟨_, readChars_dot (by simpa using hfit) hscan _⟩

/-- The dotted text of an address, where a group starts, stores its four
bytes and ends the reading. -/
theorem readChars_dotted {out : List UInt8} {gap : Option Nat} (v : Ipv4) (hfit : out.length + 4 ≤ 16) :
    ∃ g, readChars ⟨out, gap, 0, 0, v.toText.toList⟩ v.toText.toList =
      some ⟨out ++ v.toList, gap, g, 0, v.toText.toList⟩ := by
  have hscan : Ipv4.scan v.toText.toList = some (v, v.toText.toList.length) :=
    Ipv4.scan_eq_some_iff.2 ⟨[], by simp, .inl rfl, String.length_toList⟩
  obtain ⟨g, hg⟩ := @readChars_of_scan _ _ _ hscan out gap hfit
  exact ⟨g, by rw [hg, if_pos rfl]⟩

/-! ## Where reading starts -/

/-- A text that does not start with a colon is read from its start. -/
theorem readBytes_of_ne_colon {cs : List Char} (h : ∀ r, cs ≠ ':' :: r) :
    readBytes cs = readChars ⟨[], none, 0, 0, cs⟩ cs >>= finish := by
  unfold readBytes
  split
  · exact absurd rfl (h _)
  · exact absurd rfl (h _)
  · rfl

/-- A text that starts with `::` is read from its second colon. -/
theorem readBytes_colon_colon (r : List Char) :
    readBytes (':' :: ':' :: r) = readChars ⟨[], none, 0, 0, ':' :: r⟩ (':' :: r) >>= finish := rfl

/-! ## Texts that are never read -/

/-- Without a colon, reading leaves the place of `::` as it was and stores
at most the four bytes of a dotted tail. The induction is on the text. -/
theorem readChars_of_not_mem_colon :
    ∀ (cs : List Char) (st st' : Reader), ':' ∉ cs → readChars st cs = some st' →
      st'.gap = st.gap ∧ st'.out.length ≤ st.out.length + 4
  | [], st, st', _, h => by
    cases h
    exact ⟨rfl, by omega⟩
  | ch :: rest, st, st', hcolon, h => by
    have hch : ch ≠ ':' := fun he => hcolon (he ▸ List.mem_cons_self)
    have hrest : ':' ∉ rest := fun hm => hcolon (List.mem_cons_of_mem ch hm)
    unfold readChars at h
    split at h
    · split at h
      · cases h
      · have := readChars_of_not_mem_colon rest _ st' hrest h
        exact this
    · rw [if_neg hch] at h
      split at h
      · split at h
        · split at h
          · cases h
            exact ⟨rfl, by simp [Ipv4.toList]⟩
          · cases h
        · cases h
      · cases h

/-- **Every text read has a colon**: sixteen bytes need at least two groups
or a `::`. -/
theorem mem_of_readBytes {cs : List Char} {bytes : List UInt8} (h : readBytes cs = some bytes) : ':' ∈ cs := by
  by_cases hcolon : ':' ∈ cs
  · exact hcolon
  · exfalso
    rw [readBytes_of_ne_colon fun r hr => hcolon (by rw [hr]; exact List.mem_cons_self)] at h
    obtain ⟨st', hst', hfin⟩ := Option.bind_eq_some_iff.1 h
    obtain ⟨hgap, hout⟩ := readChars_of_not_mem_colon cs _ st' hcolon hst'
    -- with no `::`, finishing wants sixteen bytes, and there are at most six
    obtain ⟨out, gap, g, d, tok⟩ := st'
    simp only at hgap hout
    subst hgap
    cases d with
    | zero =>
      rw [finish_none, if_neg (by simp at hout; omega)] at hfin
      cases hfin
    | succ d =>
      rw [finish_pending _ _ _ _ _ (by simp at hout; omega), finish_none,
        if_neg (by simp [groupBytes] at hout ⊢; omega)] at hfin
      cases hfin

/-- **No text that starts with a dotted quad is read**: the IPv4 reader
takes the quad from the start, and then either the text goes on with a
colon, which that reader leaves, or the four bytes are all there are. -/
theorem readBytes_eq_none_of_scan {cs : List Char} {v : Ipv4} {n : Nat} (h : Ipv4.scan cs = some (v, n)) :
    readBytes cs = none := by
  obtain ⟨rest, hcs, -, -⟩ := Ipv4.scan_eq_some_iff.1 h
  -- the text starts with a digit
  have hstart : ∀ r, cs ≠ ':' :: r := by
    intro r hr
    rw [Ipv4.toList_toText, hr] at hcs
    obtain ⟨c, cs', hc⟩ := List.exists_cons_of_ne_nil (Nat.toDigits_ne_nil (b := 10) (n := v.o1.toNat))
    have hdigit := Nat.isDigit_of_mem_toDigits_ten (hc ▸ List.mem_cons_self : c ∈ Nat.toDigits 10 v.o1.toNat)
    rw [hc] at hcs
    simp only [List.cons_append, List.cons.injEq] at hcs
    rw [← hcs.1] at hdigit
    cases hdigit
  rw [readBytes_of_ne_colon hstart]
  obtain ⟨g, hg⟩ := @readChars_of_scan _ _ _ h [] none (by simp)
  rw [hg]
  split
  · simp [finish_none, Ipv4.toList]
  · rfl

end CimBroker.Address.Ipv6
