import CimBroker.Proofs.Address.Ipv6Reader

/-!
# The grammar of IPv6 literals

The URI grammar writes an IPv6 address in nine forms:

```text
IPv6address =                            6( h16 ":" ) ls32
            /                       "::" 5( h16 ":" ) ls32
            / [               h16 ] "::" 4( h16 ":" ) ls32
            / [ *1( h16 ":" ) h16 ] "::" 3( h16 ":" ) ls32
            / [ *2( h16 ":" ) h16 ] "::" 2( h16 ":" ) ls32
            / [ *3( h16 ":" ) h16 ] "::"    h16 ":"   ls32
            / [ *4( h16 ":" ) h16 ] "::"              ls32
            / [ *5( h16 ":" ) h16 ] "::"              h16
            / [ *6( h16 ":" ) h16 ] "::"
h16         = 1*4HEXDIG
ls32        = ( h16 ":" h16 ) / IPv4address
```

The nine forms say one thing. The text is groups separated by colons, the
last 32 bits possibly written as a dotted IPv4 literal; either there are
eight groups, the literal counting as two, or there is one `::` with at most
seven groups around it, and `::` stands for the zero groups that are
missing, at its place. `Ipv6.Literal` states it that way, with the bytes the
text stands for: each group big-endian, in order.

The reader (`Ipv6.readBytes`) works one character at a time. Between two
fields it is at a *field start*: no digits pending and the rest of the text
as its token. From there one field is read (`readChars_field`): the end of
the text, the second colon of `::`, a last group, a group and its colon, or
a dotted tail. Reading the whole text is a run of fields, before `::` and
after it (`finish_readChars_before_gap`, `finish_readChars_after_gap`).
Conversely every piece of the grammar is read as what it stands for
(`Groups.finish_readChars`, `Groups.readChars_colon`).

## Main results

* `Ipv6.readChars_field` — what reading one field can do.
* `Ipv6.literal_of_readBytes` — every text read is a literal of the bytes
  read.
* `Ipv6.readBytes_of_literal` — every literal is read as its bytes.
* `Ipv6.parse?_iff_literal` — the reader accepts exactly the literals, and
  returns the address each stands for.
-/

namespace CimBroker.Address.Ipv6

/-! ## The grammar -/

/-- Value of hexadecimal digits, most significant first. -/
def hexDigitsValue (t : List Char) : Nat := t.foldl (fun v c => v * 16 + (hexValue c).getD 0) 0

/-- A group (`h16`): one to four hexadecimal digits of either case, of
value `w`. -/
structure H16 (t : List Char) (w : Nat) : Prop where
  ne_nil : t ≠ []
  length_le : t.length ≤ 4
  hex : ∀ c ∈ t, (hexValue c).isSome
  value : hexDigitsValue t = w

/-- Groups separated by colons, and the bytes they stand for, two per group
in big-endian order. With index `true` the last group may instead be a
dotted IPv4 literal (the second form of `ls32`), standing for its four
bytes. -/
inductive Groups : Bool → List Char → List UInt8 → Prop
  | group {d : Bool} {t : List Char} {w : Nat} : H16 t w → Groups d t (groupBytes w)
  | dotted {t : List Char} {v : Ipv4} : Ipv4.Literal t v → Groups true t v.toList
  | cons {d : Bool} {t cs : List Char} {w : Nat} {bs : List UInt8} :
      H16 t w → Groups d cs bs → Groups d (t ++ ':' :: cs) (groupBytes w ++ bs)

/-- A literal IPv6 address `cs` and the sixteen bytes it stands for: eight
groups, a dotted tail counting as two; or the groups before a `::` and those
after it, a dotted tail allowed only after it, fewer than eight together, and
`::` standing for the zero groups missing. -/
def Literal (cs : List Char) (bytes : List UInt8) : Prop :=
  (Groups true cs bytes ∧ bytes.length = 16) ∨
  ∃ pre post pb qb, cs = pre ++ ':' :: ':' :: post ∧ (pre = [] ∧ pb = [] ∨ Groups false pre pb) ∧
    (post = [] ∧ qb = [] ∨ Groups true post qb) ∧ pb.length + qb.length < 16 ∧
    bytes = pb ++ List.replicate (16 - pb.length - qb.length) 0 ++ qb

/-- A group's text starts with a hexadecimal digit. -/
theorem H16.head {t : List Char} {w : Nat} (h : H16 t w) : ∃ c r, t = c :: r ∧ (hexValue c).isSome := by
  obtain ⟨c, r, rfl⟩ := List.exists_cons_of_ne_nil h.ne_nil
  exact ⟨c, r, rfl, h.hex c List.mem_cons_self⟩

/-- Every text of groups starts with a hexadecimal digit, in particular not
with a colon: a group starts with one, and so does a dotted literal, with
its first decimal digit. -/
theorem Groups.head {d : Bool} {cs : List Char} {bs : List UInt8} (h : Groups d cs bs) :
    ∃ c r, cs = c :: r ∧ (hexValue c).isSome := by
  cases h with
  | group hw => exact hw.head
  | dotted hv =>
    rename_i v
    rw [Ipv4.literal_iff, Ipv4.toList_toText] at hv
    obtain ⟨c, r, hc⟩ := List.exists_cons_of_ne_nil (Nat.toDigits_ne_nil (b := 10) (n := v.o1.toNat))
    have hdigit := Nat.isDigit_of_mem_toDigits_ten (hc ▸ List.mem_cons_self : c ∈ Nat.toDigits 10 v.o1.toNat)
    rw [hc, List.cons_append] at hv
    exact ⟨c, _, hv, by simp [hexValue_of_isDigit hdigit]⟩
  | cons hw _ =>
    obtain ⟨c, r, rfl, hc⟩ := hw.head
    exact ⟨c, _, rfl, hc⟩

theorem Groups.ne_nil {d : Bool} {cs : List Char} {bs : List UInt8} (h : Groups d cs bs) : cs ≠ [] := by
  obtain ⟨c, r, rfl, -⟩ := h.head
  exact List.cons_ne_nil c r

theorem Groups.ne_colon {d : Bool} {cs : List Char} {bs : List UInt8} (h : Groups d cs bs) (r : List Char) :
    cs ≠ ':' :: r := by
  obtain ⟨c, r', rfl, hc⟩ := h.head
  intro he
  obtain ⟨rfl, -⟩ := List.cons.inj he
  simp at hc

/-! ## What finishing does -/

/-- Finishing reads neither the token nor a group value when no digits are
pending. -/
theorem finish_digits_zero (out : List UInt8) (gap : Option Nat) (g : Nat) (tok : List Char) :
    finish ⟨out, gap, g, 0, tok⟩ = finish ⟨out, gap, 0, 0, []⟩ := by
  simp [finish]

/-- With `::` at byte `k`, finishing inserts the zeros `::` stands for
there, if it stands for at least one group. -/
theorem finish_gap_eq_some {out bytes : List UInt8} {k : Nat} (hout : out.length ≤ 16)
    (h : finish ⟨out, some k, 0, 0, []⟩ = some bytes) :
    out.length < 16 ∧ bytes = out.take k ++ List.replicate (16 - out.length) 0 ++ out.drop k := by
  rw [finish_gap] at h
  split at h
  · cases h
  · rename_i hne
    exact ⟨by omega, (Option.some.inj h).symm⟩

/-- A group pending when the text ends is stored first, if it fits. -/
theorem finish_pending_eq_some {out bytes : List UInt8} {gap : Option Nat} {w d : Nat} {tok : List Char}
    (h : finish ⟨out, gap, w, d + 1, tok⟩ = some bytes) :
    out.length + 2 ≤ 16 ∧ finish ⟨out ++ groupBytes w, gap, 0, 0, []⟩ = some bytes := by
  by_cases hfit : out.length + 2 ≤ 16
  · rw [finish_pending _ _ _ _ _ hfit, finish_digits_zero] at h
    exact ⟨hfit, h⟩
  · simp [finish, show 16 < out.length + 2 by omega] at h

/-- With no `::`, finishing wants the sixteen bytes read. -/
theorem finish_none_eq_some {out bytes : List UInt8} (h : finish ⟨out, none, 0, 0, []⟩ = some bytes) :
    out.length = 16 ∧ bytes = out := by
  rw [finish_none] at h
  split at h
  · exact ⟨‹_›, (Option.some.inj h).symm⟩
  · cases h

/-! ## Reading the grammar -/

section Reading

variable {out : List UInt8} {gap : Option Nat} {tok : List Char}

/-- The digits of a group accumulate into the group being read. -/
theorem readChars_h16 {t : List Char} {w : Nat} (h : H16 t w) (rest : List Char) :
    readChars ⟨out, gap, 0, 0, tok⟩ (t ++ rest) = readChars ⟨out, gap, w, t.length, tok⟩ rest := by
  rw [readChars_hexDigits t _ rest h.hex (by simpa using h.length_le)]
  simp [← h.value, hexDigitsValue]

/-- A group and a colon store the group's two bytes, reading going on at the
next field. -/
theorem readChars_h16_colon {t : List Char} {w : Nat} (h : H16 t w) {rest : List Char} (hrest : rest ≠ [])
    (hfit : out.length + 2 ≤ 16) :
    readChars ⟨out, gap, 0, 0, tok⟩ (t ++ ':' :: rest) = readChars ⟨out ++ groupBytes w, gap, 0, 0, rest⟩ rest := by
  obtain ⟨c, r, rfl, -⟩ := h.head
  rw [readChars_h16 h, readChars_colon (by simp) hrest hfit]

/-- **Groups to the end of the text** are read as the bytes they stand for,
the last group stored when reading finishes. The induction is on the
groups. -/
theorem Groups.finish_readChars {d : Bool} {cs : List Char} {bs : List UInt8} (h : Groups d cs bs) :
    ∀ (out : List UInt8) (gap : Option Nat), out.length + bs.length ≤ 16 →
      (readChars ⟨out, gap, 0, 0, cs⟩ cs >>= finish) = finish ⟨out ++ bs, gap, 0, 0, []⟩ := by
  induction h with
  | group hw =>
    rename_i t w
    intro out gap hfit
    obtain ⟨c, r, rfl, -⟩ := hw.head
    have hpend : readChars ⟨out, gap, 0, 0, c :: r⟩ (c :: r ++ []) =
        readChars ⟨out, gap, w, (c :: r).length, c :: r⟩ [] := readChars_h16 hw []
    rw [List.append_nil] at hpend
    rw [hpend]
    simp only [readChars, Option.bind_eq_bind, Option.bind_some, List.length_cons]
    rw [finish_pending _ _ _ _ _ (by simp [groupBytes] at hfit; omega), finish_digits_zero]
  | dotted hv =>
    rename_i t v
    intro out gap hfit
    rw [Ipv4.literal_iff] at hv
    subst hv
    obtain ⟨g, hg⟩ : ∃ g, readChars ⟨out, gap, 0, 0, v.toText.toList⟩ v.toText.toList =
        some ⟨out ++ v.toList, gap, g, 0, v.toText.toList⟩ :=
      readChars_dotted v (by simpa [Ipv4.toList] using hfit)
    rw [hg]
    simp only [Option.bind_eq_bind, Option.bind_some]
    rw [finish_digits_zero]
  | cons hw hs ih =>
    rename_i d t cs w bs
    intro out gap hfit
    have hfit' : out.length + 2 ≤ 16 := by
      have := hs.ne_nil
      simp [groupBytes] at hfit
      omega
    rw [readChars_h16_colon hw hs.ne_nil hfit', ih _ _ (by simp [groupBytes] at hfit ⊢; omega),
      List.append_assoc]

/-- **Groups before `::`**, none of them dotted, and the colon after them:
each group is stored, reading going on at the field after the colon. The
induction is on the groups. -/
theorem Groups.readChars_colon {d : Bool} {cs : List Char} {bs : List UInt8} (h : Groups d cs bs) (hd : d = false) :
    ∀ (out : List UInt8) (gap : Option Nat) (rest : List Char), rest ≠ [] → out.length + bs.length ≤ 16 →
      readChars ⟨out, gap, 0, 0, cs ++ ':' :: rest⟩ (cs ++ ':' :: rest) =
        readChars ⟨out ++ bs, gap, 0, 0, rest⟩ rest := by
  induction h with
  | group hw =>
    intro out gap rest hrest hfit
    exact readChars_h16_colon hw hrest (by simpa [groupBytes] using hfit)
  | dotted => cases hd
  | cons hw hs ih =>
    intro out gap rest hrest hfit
    have hfit' : out.length + 2 ≤ 16 := by
      have := hs.ne_nil
      simp [groupBytes] at hfit
      omega
    rw [List.append_assoc, List.cons_append, readChars_h16_colon hw (by simp) hfit',
      ih hd _ _ rest hrest (by simp [groupBytes] at hfit ⊢; omega), List.append_assoc]

end Reading

/-- **Every literal is read as its bytes.** -/
theorem readBytes_of_literal {cs : List Char} {bytes : List UInt8} (h : Literal cs bytes) :
    readBytes cs = some bytes := by
  rcases h with ⟨hg, hlen⟩ | ⟨pre, post, pb, qb, rfl, hpre, hpost, hlt, rfl⟩
  · -- eight groups, read from the start
    rw [readBytes_of_ne_colon hg.ne_colon, hg.finish_readChars [] none (by simp [hlen]), finish_none]
    simp [hlen]
  · -- the groups after `::`, read with the gap at the end of those before it
    have hafter : readChars ⟨pb, some pb.length, 0, 0, post⟩ post >>= finish =
        some (pb ++ List.replicate (16 - pb.length - qb.length) 0 ++ qb) := by
      rcases hpost with ⟨rfl, rfl⟩ | hq
      · simp only [readChars, Option.bind_eq_bind, Option.bind_some, finish_gap]
        rw [if_neg (by simp at hlt; omega)]
        simp
      · rw [hq.finish_readChars pb _ (by omega), finish_gap, if_neg (by simp; omega)]
        simp [Nat.sub_sub]
    rcases hpre with ⟨rfl, rfl⟩ | hp
    · rw [List.nil_append, readBytes_colon_colon, readChars_gap]
      simpa using hafter
    · have hne : ∀ r, pre ++ ':' :: ':' :: post ≠ ':' :: r := fun r he => by
        obtain ⟨c, r', rfl, hc⟩ := hp.head
        obtain ⟨rfl, -⟩ := List.cons.inj he
        simp at hc
      rw [readBytes_of_ne_colon hne, hp.readChars_colon rfl [] none _ (by simp) (by simp; omega),
        List.nil_append, readChars_gap]
      exact hafter

/-! ## What reading does -/

/-- More than four hexadecimal digits in a row are refused. The induction is
on the digits. -/
theorem readChars_hex_overflow : ∀ (ds : List Char) (st : Reader) (rest : List Char),
    (∀ c ∈ ds, (hexValue c).isSome) → st.digits ≤ 4 → 4 < st.digits + ds.length → readChars st (ds ++ rest) = none
  | [], st, rest, _, hle, hlt => by
    simp at hlt
    omega
  | c :: ds, st, rest, hhex, hle, hlt => by
    obtain ⟨d, hd⟩ := Option.isSome_iff_exists.1 (hhex c List.mem_cons_self)
    by_cases hfull : st.digits = 4
    · simp [readChars, hd, hfull]
    · rw [List.cons_append, readChars_hex hd (by omega)]
      exact readChars_hex_overflow ds _ rest (fun c' hc' => hhex c' (List.mem_cons_of_mem c hc'))
        (by simp; omega) (by simp at hlt ⊢; omega)

/-- **One field.** From a field start, reading either meets the end of the
text; or a colon, the second of `::`, which marks the gap if none is
marked yet; or a last group, left pending; or a group and a colon with more
text after it, which stores the group if it fits; or a dotted literal
filling the rest of the text, which stores its four bytes if they fit and
ends the reading. -/
theorem readChars_field {out : List UInt8} {gap : Option Nat} {cs : List Char} {st : Reader}
    (h : readChars ⟨out, gap, 0, 0, cs⟩ cs = some st) :
    (cs = [] ∧ st = ⟨out, gap, 0, 0, cs⟩) ∨
    (∃ rest, cs = ':' :: rest ∧ gap = none ∧ readChars ⟨out, some out.length, 0, 0, rest⟩ rest = some st) ∨
    (∃ w, H16 cs w ∧ st = ⟨out, gap, w, cs.length, cs⟩) ∨
    (∃ t w rest, cs = t ++ ':' :: rest ∧ H16 t w ∧ rest ≠ [] ∧ out.length + 2 ≤ 16 ∧
      readChars ⟨out ++ groupBytes w, gap, 0, 0, rest⟩ rest = some st) ∨
    (∃ v, Ipv4.Literal cs v ∧ out.length + 4 ≤ 16 ∧ st.out = out ++ v.toList ∧ st.digits = 0 ∧ st.gap = gap) := by
  -- the field starts with its hexadecimal digits, and what follows them starts with none
  obtain ⟨ds, r, rfl, hhex, hhead⟩ : ∃ ds r, cs = ds ++ r ∧ (∀ c ∈ ds, (hexValue c).isSome) ∧
      ∀ c r', r = c :: r' → hexValue c = none := by
    refine ⟨_, _, List.takeWhile_append_dropWhile.symm, fun c hc => List.all_eq_true.1 List.all_takeWhile c hc,
      fun c r' he => ?_⟩
    have hnot := List.head_dropWhile_not (fun c => (hexValue c).isSome) (l := cs) (by simp [he])
    simpa [he] using hnot
  have hlen : ds.length ≤ 4 := by
    apply Nat.le_of_not_lt
    intro hlt
    rw [readChars_hex_overflow ds _ r hhex (Nat.zero_le 4) (by simpa using hlt)] at h
    cases h
  rw [readChars_hexDigits ds _ r hhex (by simpa using hlen)] at h
  have hgroup : H16 ds (hexDigitsValue ds) ∨ ds = [] := by
    cases ds with
    | nil => exact .inr rfl
    | cons c ds => exact .inl ⟨List.cons_ne_nil c ds, hlen, hhex, rfl⟩
  cases r with
  | nil =>
    -- the text ends with the field
    simp only [readChars, Option.some.injEq, List.append_nil, Nat.zero_add] at h
    subst h
    simp only [List.append_nil]
    rcases hgroup with hw | rfl
    · exact .inr (.inr (.inl ⟨_, hw, rfl⟩))
    · exact .inl ⟨rfl, rfl⟩
  | cons c r' =>
    have hc := hhead c r' rfl
    simp only [readChars, hc, Nat.zero_add] at h
    split at h
    · -- a colon: the gap when no digits came before it, else the end of a group
      subst_vars
      split at h
      · rename_i hzero
        obtain rfl : ds = [] := List.eq_nil_of_length_eq_zero hzero
        split at h
        · cases h
        · rename_i hgap
          have hnone : gap = none := by simpa using hgap
          exact .inr (.inl ⟨r', rfl, hnone, by simpa using h⟩)
      · rename_i hpos
        rcases hgroup with hw | rfl
        · split at h
          · cases h
          · rename_i hne
            split at h
            · cases h
            · rename_i hfit
              exact .inr (.inr (.inr (.inl ⟨ds, _, r', rfl, hw, by simpa using hne, by omega, h⟩)))
        · exact absurd rfl hpos
    · split at h
      · -- a dot: the field, from its start, must be a dotted literal to the end
        rename_i hcolon hdot
        obtain ⟨rfl, hfit⟩ := hdot
        split at h
        · rename_i v used hscan
          split at h
          · rename_i hused
            subst hused
            obtain rfl := Option.some.inj h
            exact .inr (.inr (.inr (.inr ⟨v, Ipv4.literal_of_scan hscan, hfit, rfl, rfl, rfl⟩)))
          · cases h
        · cases h
      · cases h

/-- **After `::`**, from a field start with the gap at byte `k`: what is left
is nothing, or groups with a dotted literal allowed last; they leave room
for at least one more group, and finishing puts the missing zeros at `k`.
The recursion follows the fields. -/
theorem finish_readChars_after_gap {out bytes : List UInt8} {k : Nat} {cs : List Char} {st : Reader}
    (hout : out.length ≤ 16) (h : readChars ⟨out, some k, 0, 0, cs⟩ cs = some st) (hfin : finish st = some bytes) :
    ∃ qb, (cs = [] ∧ qb = [] ∨ Groups true cs qb) ∧ (out ++ qb).length < 16 ∧
      bytes = (out ++ qb).take k ++ List.replicate (16 - (out ++ qb).length) 0 ++ (out ++ qb).drop k := by
  rcases readChars_field h with ⟨rfl, rfl⟩ | ⟨rest, -, hgap, -⟩ | ⟨w, hw, rfl⟩ |
      ⟨t, w, rest, rfl, hw, hrest, hfit, h'⟩ | ⟨v, hv, hfit, hout', hdigits, hgap⟩
  · -- the end of the text
    obtain ⟨hlt, rfl⟩ := finish_gap_eq_some hout hfin
    exact ⟨[], .inl ⟨rfl, rfl⟩, by simpa using hlt, by simp⟩
  · cases hgap
  · -- a last group, stored when finishing
    obtain ⟨c, r, rfl, -⟩ := hw.head
    obtain ⟨hfit, hfin'⟩ := finish_pending_eq_some hfin
    obtain ⟨hlt, rfl⟩ := finish_gap_eq_some (by simp [groupBytes]; omega) hfin'
    exact ⟨groupBytes w, .inr (.group hw), hlt, rfl⟩
  · -- a group and its colon, then the groups after it
    obtain ⟨qb, hq, hlt, rfl⟩ := finish_readChars_after_gap (by simp [groupBytes]; omega) h' hfin
    rcases hq with ⟨rfl, -⟩ | hq
    · exact absurd rfl hrest
    · exact ⟨groupBytes w ++ qb, .inr (.cons hw hq), by simpa using hlt, by simp⟩
  · -- a dotted literal, which ends the text
    obtain ⟨o, g, gr, d, tk⟩ := st
    subst hout' hdigits hgap
    rw [finish_digits_zero] at hfin
    obtain ⟨hlt, rfl⟩ := finish_gap_eq_some (by simp [Ipv4.toList]; omega) hfin
    exact ⟨v.toList, .inr (.dotted hv), hlt, rfl⟩
termination_by cs.length

/-- **Before `::`**, from a field start with no gap marked: what is left is
either groups to the end, a dotted literal allowed last, filling the sixteen
bytes; or `::` at once, the first colon read just now; or groups before
`::`, none dotted, and what comes after it. The recursion follows the
fields. -/
theorem finish_readChars_before_gap {out bytes : List UInt8} {cs : List Char} {st : Reader}
    (hout : out.length ≤ 16) (hne : cs ≠ []) (h : readChars ⟨out, none, 0, 0, cs⟩ cs = some st)
    (hfin : finish st = some bytes) :
    (∃ qb, Groups true cs qb ∧ (out ++ qb).length = 16 ∧ bytes = out ++ qb) ∨
    (∃ post qb, cs = ':' :: post ∧ (post = [] ∧ qb = [] ∨ Groups true post qb) ∧
      (out ++ qb).length < 16 ∧ bytes = out ++ List.replicate (16 - (out ++ qb).length) 0 ++ qb) ∨
    (∃ pre post pb qb, cs = pre ++ ':' :: ':' :: post ∧ Groups false pre pb ∧
      (post = [] ∧ qb = [] ∨ Groups true post qb) ∧ (out ++ pb ++ qb).length < 16 ∧
      bytes = out ++ pb ++ List.replicate (16 - (out ++ pb ++ qb).length) 0 ++ qb) := by
  rcases readChars_field h with ⟨rfl, -⟩ | ⟨rest, rfl, -, h'⟩ | ⟨w, hw, rfl⟩ |
      ⟨t, w, rest, rfl, hw, hrest, hfit, h'⟩ | ⟨v, hv, hfit, hout', hdigits, hgap⟩
  · exact absurd rfl hne
  · -- the second colon of `::`: the gap is marked after the bytes read so far
    obtain ⟨qb, hq, hlt, rfl⟩ := finish_readChars_after_gap hout h' hfin
    exact .inr (.inl ⟨rest, qb, rfl, hq, hlt, by simp⟩)
  · -- a last group
    obtain ⟨c, r, rfl, -⟩ := hw.head
    obtain ⟨-, hfin'⟩ := finish_pending_eq_some hfin
    obtain ⟨hlen, rfl⟩ := finish_none_eq_some hfin'
    exact .inl ⟨groupBytes w, .group hw, hlen, rfl⟩
  · -- a group and its colon: it joins the groups after it, or stands before `::`
    rcases finish_readChars_before_gap (by simp [groupBytes]; omega) hrest h' hfin with
        ⟨qb, hq, hlen, rfl⟩ | ⟨post, qb, rfl, hq, hlt, rfl⟩ | ⟨pre, post, pb, qb, rfl, hp, hq, hlt, rfl⟩
    · exact .inl ⟨groupBytes w ++ qb, .cons hw hq, by simpa using hlen, by simp⟩
    · exact .inr (.inr ⟨t, post, groupBytes w, qb, rfl, .group hw, hq, hlt, rfl⟩)
    · exact .inr (.inr ⟨t ++ ':' :: pre, post, groupBytes w ++ pb, qb, by simp, .cons hw hp, hq,
        by simpa using hlt, by simp⟩)
  · -- a dotted literal, which ends the text
    obtain ⟨o, g, gr, d, tk⟩ := st
    subst hout' hdigits hgap
    rw [finish_digits_zero] at hfin
    obtain ⟨hlen, rfl⟩ := finish_none_eq_some hfin
    exact .inl ⟨v.toList, .dotted hv, hlen, rfl⟩
termination_by cs.length

/-- **Every text read is a literal** of the bytes read. -/
theorem literal_of_readBytes {cs : List Char} {bytes : List UInt8} (h : readBytes cs = some bytes) :
    Literal cs bytes := by
  rcases cs with _ | ⟨c, rest⟩
  · simp [readBytes, readChars, finish] at h
  · by_cases hc : c = ':'
    · -- a leading colon must be the first of `::`, read as the gap before all groups
      subst hc
      rcases rest with _ | ⟨c', r⟩
      · simp [readBytes] at h
      · by_cases hc' : c' = ':'
        · subst hc'
          rw [readBytes_colon_colon, readChars_gap] at h
          obtain ⟨st, hst, hfin⟩ := Option.bind_eq_some_iff.1 h
          obtain ⟨qb, hq, hlt, rfl⟩ := finish_readChars_after_gap (by simp) hst hfin
          exact .inr ⟨[], r, [], qb, rfl, .inl ⟨rfl, rfl⟩, hq, by simpa using hlt, by simp⟩
        · simp [readBytes, hc'] at h
    · rw [readBytes_of_ne_colon fun r he => hc (List.cons.inj he).1] at h
      obtain ⟨st, hst, hfin⟩ := Option.bind_eq_some_iff.1 h
      rcases finish_readChars_before_gap (by simp) (List.cons_ne_nil _ _) hst hfin with
          ⟨qb, hq, hlen, rfl⟩ | ⟨post, qb, he, -⟩ | ⟨pre, post, pb, qb, he, hp, hq, hlt, rfl⟩
      · exact .inl ⟨hq, by simpa using hlen⟩
      · exact absurd (List.cons.inj he).1 hc
      · exact .inr ⟨pre, post, pb, qb, he, .inr hp, hq, by simpa using hlt, by simp [Nat.sub_sub]⟩

/-- **The reader accepts exactly the literals.** A text is read as address
`a` exactly when it is an IPv6 literal standing for the bytes of `a`: eight
groups of one to four hexadecimal digits of either case separated by colons,
or fewer with one `::` standing for at least one zero group, the last 32
bits possibly as a canonical dotted IPv4 literal. -/
theorem parse?_iff_literal (s : String) (a : Ipv6) : parse? s = some a ↔ Literal s.toList a.bytes := by
  constructor
  · intro h
    unfold parse? at h
    split at h
    · cases h
    · rename_i bytes hread
      split at h
      · obtain rfl := Option.some.inj h
        exact literal_of_readBytes hread
      · cases h
  · intro h
    simp only [parse?, readBytes_of_literal h, dif_pos a.length_bytes]

end CimBroker.Address.Ipv6
