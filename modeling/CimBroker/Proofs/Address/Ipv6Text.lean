import CimBroker.Proofs.Address.Ipv6Reader

/-!
# Reading back the canonical IPv6 text

`Ipv6.toText` writes an address in one of four shapes: eight groups with no
`::`; `::a.b.c.d` for an IPv4-compatible address; `::ffff:a.b.c.d` for an
IPv4-mapped one; and otherwise the groups on both sides of a `::` that
stands for the first longest run of zero groups. This module reads each
shape back with the lemmas of `CimBroker.Proofs.Address.Ipv6Reader`.

The argument has three parts:

* the eight groups, written as bytes, are the address's sixteen bytes
  (`flatMap_groupBytes_words`);
* the run that `::` stands for is a run of at least two zero groups
  (`longestZeroRun_spec`), so the bytes are those of the groups before it,
  zeros, and those of the groups after it (`IsZeroRun.bytes`);
* each shape is read, from its first character, to exactly those bytes.

## Main results

* `readBytes_toText` — the reader returns the bytes of the address written.
* `parse?_toText` — reading the canonical text gives the address back.
* `toText_roundTrip` — so the text determines the address, and every text
  written is accepted.
-/

namespace CimBroker.Address.Ipv6

/-! ## Groups and bytes -/

/-- Two bytes read as a big-endian group are written back as themselves. -/
theorem groupBytes_toNat (x y : UInt8) : groupBytes (x.toNat * 256 + y.toNat) = [x, y] := by
  have hx := x.toNat_lt
  have hy := y.toNat_lt
  have hhigh : (x.toNat * 256 + y.toNat) / 256 = x.toNat := by omega
  simp [groupBytes, hhigh]

@[simp] theorem groupBytes_zero : groupBytes 0 = [0, 0] := rfl

theorem length_flatMap_groupBytes (ws : List Nat) : (ws.flatMap groupBytes).length = 2 * ws.length := by
  induction ws with
  | nil => rfl
  | cons w ws ih =>
    simp only [List.flatMap_cons, List.length_append, ih, List.length_cons]
    simp [groupBytes]
    omega

theorem flatMap_groupBytes_replicate (n : Nat) :
    (List.replicate n 0).flatMap groupBytes = List.replicate (2 * n) 0 := by
  induction n with
  | zero => rfl
  | succ n ih =>
    rw [List.replicate_succ, List.flatMap_cons, ih, show 2 * (n + 1) = 2 * n + 1 + 1 by omega,
      List.replicate_succ, List.replicate_succ]
    rfl

/-- Bytes read two at a time as big-endian groups, and written back, are the
bytes again. The induction is on the number of pairs, taking the first pair
off the front. -/
theorem flatMap_groupBytes_pairs :
    ∀ (n : Nat) (bs : List UInt8), bs.length = 2 * n →
      ((List.range n).map fun i => (bs.getD (2 * i) 0).toNat * 256 + (bs.getD (2 * i + 1) 0).toNat).flatMap
        groupBytes = bs
  | 0, bs, h => by simp_all
  | n + 1, x :: y :: bs, h => by
    rw [List.range_succ_eq_map, List.map_cons, List.map_map, List.flatMap_cons]
    -- the groups after the first read the bytes after the first pair
    have hf : ((fun i => ((x :: y :: bs).getD (2 * i) 0).toNat * 256 +
        ((x :: y :: bs).getD (2 * i + 1) 0).toNat) ∘ Nat.succ) =
          fun i => (bs.getD (2 * i) 0).toNat * 256 + (bs.getD (2 * i + 1) 0).toNat := by
      funext i
      have h1 : 2 * (i + 1) = 2 * i + 1 + 1 := by omega
      simp only [Function.comp, Nat.succ_eq_add_one, h1, List.getD_cons_succ]
    rw [hf, flatMap_groupBytes_pairs n bs (by simp at h; omega)]
    simp [groupBytes_toNat]
  | n + 1, [], h => by simp at h
  | n + 1, [_], h => by simp at h; omega

@[simp] theorem length_words (a : Ipv6) : a.words.length = 8 := by simp [words]

/-- The eight groups, written as bytes, are the address's bytes. -/
theorem flatMap_groupBytes_words (a : Ipv6) : a.words.flatMap groupBytes = a.bytes :=
  flatMap_groupBytes_pairs 8 a.bytes (by simp [a.length_bytes])

theorem lt_of_mem_words {a : Ipv6} {w : Nat} (h : w ∈ a.words) : w < 65536 := by
  simp only [words, List.mem_map, List.mem_range] at h
  obtain ⟨i, -, rfl⟩ := h
  have := (a.bytes.getD (2 * i) 0).toNat_lt
  have := (a.bytes.getD (2 * i + 1) 0).toNat_lt
  omega

/-- The last thirty-two bits, which the canonical text may write as a dotted
quad. -/
def lastQuad (a : Ipv6) : Ipv4 :=
  ⟨a.bytes.getD 12 0, a.bytes.getD 13 0, a.bytes.getD 14 0, a.bytes.getD 15 0⟩

theorem tailText_eq (a : Ipv6) : a.tailText = a.lastQuad.toText := rfl

theorem toList_lastQuad (a : Ipv6) : a.lastQuad.toList = a.bytes.drop 12 := by
  apply List.ext_getElem (by simp [Ipv4.toList, a.length_bytes])
  intro n h1 _
  have hn : n < 4 := by simpa [Ipv4.toList] using h1
  have h16 := a.length_bytes
  simp only [List.getElem_drop, lastQuad, Ipv4.toList, List.getD_eq_getElem?_getD]
  -- one case for each byte of the quad
  rcases n with _ | _ | _ | _ | n
  · simp [h16]
  · simp [h16]
  · simp [h16]
  · simp [h16]
  · omega

/-! ## Runs of zero groups -/

/-- `r = (b, l)` is a run of `l` zero groups of `ws` starting at group `b`. -/
def IsZeroRun (ws : List Nat) (r : Nat × Nat) : Prop :=
  ∃ pre post, ws = pre ++ List.replicate r.2 0 ++ post ∧ pre.length = r.1

/-- Every run `zeroRuns` reports is a run of zero groups of the whole list
`W`. The induction is on the groups not yet looked at; the invariant is that
the groups looked at are `front`, and that the run in progress ends `front`. -/
theorem zeroRuns_isZeroRun {W : List Nat} :
    ∀ (ws front : List Nat) (cur : Option (Nat × Nat)), W = front ++ ws →
      (∀ c ∈ cur, ∃ pre, front = pre ++ List.replicate c.2 0 ∧ pre.length = c.1) →
      ∀ r ∈ zeroRuns ws front.length cur, IsZeroRun W r
  | [], front, cur, hW, hcur, r, hr => by
    obtain ⟨pre, hpre, hlen⟩ := hcur r (Option.mem_toList.1 hr)
    exact ⟨pre, [], by rw [hW, hpre], hlen⟩
  | w :: ws, front, cur, hW, hcur, r, hr => by
    have hW' : W = (front ++ [w]) ++ ws := by rw [hW]; simp
    unfold zeroRuns at hr
    split at hr
    · -- a zero group extends the run in progress, or starts one
      rename_i hw
      subst hw
      refine zeroRuns_isZeroRun ws (front ++ [0]) _ hW' ?_ r (by simpa using hr)
      intro c hc
      cases cur with
      | none =>
        cases hc
        exact ⟨front, rfl, rfl⟩
      | some run =>
        obtain ⟨pre, hpre, hlen⟩ := hcur run rfl
        cases hc
        exact ⟨pre, by rw [hpre, List.replicate_succ', List.append_assoc], hlen⟩
    · -- any other group ends the run in progress
      rcases List.mem_append.1 hr with hr | hr
      · obtain ⟨pre, hpre, hlen⟩ := hcur r (Option.mem_toList.1 hr)
        exact ⟨pre, w :: ws, by rw [hW, hpre], hlen⟩
      · exact zeroRuns_isZeroRun ws (front ++ [w]) none hW' (by simp) r (by simpa using hr)

/-- A left fold whose step keeps either what it had or the new element ends
with one of the elements, or with what it started with. -/
theorem mem_foldl_of_keeps {α : Type} {f : Option α → α → Option α} (hf : ∀ o x, f o x = some x ∨ f o x = o) :
    ∀ (xs : List α) (o : Option α) (r : α), r ∈ xs.foldl f o → r ∈ o ∨ r ∈ xs
  | [], _, _, h => .inl h
  | x :: xs, o, r, h => by
    rcases mem_foldl_of_keeps hf xs (f o x) r h with h | h
    · rcases hf o x with hx | hx
      · rw [hx] at h
        cases h
        exact .inr List.mem_cons_self
      · rw [hx] at h
        exact .inl h
    · exact .inr (List.mem_cons_of_mem x h)

/-- **The run written as `::`** is a run of at least two zero groups. -/
theorem longestZeroRun_spec {ws : List Nat} {b l : Nat} (h : longestZeroRun ws = some (b, l)) :
    2 ≤ l ∧ IsZeroRun ws (b, l) := by
  obtain ⟨hbest, hl⟩ := Option.filter_eq_some_iff.1 h
  refine ⟨by simpa using hl, ?_⟩
  refine (mem_foldl_of_keeps ?_ _ none _ hbest).elim (fun hnone => ?_) (fun hrun => ?_)
  · -- the search keeps the longer of the two runs
    intro o x
    cases o with
    | none => exact .inl rfl
    | some _ =>
      dsimp only
      split
      · exact .inl rfl
      · exact .inr rfl
  · cases hnone
  · exact zeroRuns_isZeroRun ws [] none rfl (by simp) _ hrun

/-- Around a run of zero groups, the bytes are those of the groups before
it, zeros, and those of the groups after it. -/
theorem IsZeroRun.bytes {a : Ipv6} {b l : Nat} (h : IsZeroRun a.words (b, l)) :
    a.bytes = (a.words.take b).flatMap groupBytes ++ List.replicate (2 * l) 0 ++
      (a.words.drop (b + l)).flatMap groupBytes := by
  obtain ⟨pre, post, hws, hlen⟩ := h
  subst hlen
  rw [← flatMap_groupBytes_words, hws]
  simp [List.flatMap_append, flatMap_groupBytes_replicate]

theorem IsZeroRun.add_le {ws : List Nat} {b l : Nat} (h : IsZeroRun ws (b, l)) : b + l ≤ ws.length := by
  obtain ⟨pre, post, hws, hlen⟩ := h
  rw [hws]
  simp at hlen ⊢
  omega

/-! ## The texts of groups -/

theorem ne_colon_of_mem_toDigits {w : Nat} {c : Char} (h : c ∈ Nat.toDigits 16 w) : c ≠ ':' := by
  rintro rfl
  simpa using isSome_hexValue_of_mem_toDigits h

/-- Groups joined by colons, as characters. The induction is on the groups
after the first. -/
theorem toList_intercalate_groupText (w : Nat) (ws : List Nat) :
    (":".intercalate ((w :: ws).map groupText)).toList =
      Nat.toDigits 16 w ++ ws.flatMap (fun x => ':' :: Nat.toDigits 16 x) := by
  rw [String.toList_intercalate, List.map_map]
  induction ws generalizing w with
  | nil => simp [toList_groupText]
  | cons x ws ih =>
    rw [List.map_cons, List.map_cons, List.intercalate_cons_cons, ← List.map_cons, ih]
    simp [toList_groupText]

/-- What follows the groups before `::`: the `::` itself, then the groups
after it joined by colons. -/
theorem toList_colon_join_groupText (S : List Nat) :
    (":" ++ (String.join (S.map fun w => ":" ++ groupText w) ++ if S = [] then ":" else "")).toList =
      ':' :: ':' :: (":".intercalate (S.map groupText)).toList := by
  cases S with
  | nil => rfl
  | cons s S =>
    rw [toList_intercalate_groupText, if_neg (List.cons_ne_nil s S)]
    simp [String.toList_join, List.flatMap_map, groupText]

/-- Groups each followed by a colon, written as the groups joined by colons
with a colon after the last. The induction is on the groups after the
first. -/
theorem toDigits_flatMap_colon (w : Nat) (ws : List Nat) (rest : List Char) :
    Nat.toDigits 16 w ++ ws.flatMap (fun x => ':' :: Nat.toDigits 16 x) ++ ':' :: rest =
      (w :: ws).flatMap (fun x => Nat.toDigits 16 x ++ [':']) ++ rest := by
  induction ws generalizing w with
  | nil => simp
  | cons x ws ih =>
    have := ih x
    simp only [List.flatMap_cons, List.append_assoc, List.cons_append, List.nil_append] at this ⊢
    rw [this]

/-! ## Reading each shape -/

/-- A text that starts with a group is read from its start. -/
theorem readBytes_toDigits (w : Nat) (rest : List Char) :
    readBytes (Nat.toDigits 16 w ++ rest) =
      readChars ⟨[], none, 0, 0, Nat.toDigits 16 w ++ rest⟩ (Nat.toDigits 16 w ++ rest) >>= finish := by
  apply readBytes_of_ne_colon
  intro r hr
  obtain ⟨c, cs, hc⟩ := List.exists_cons_of_ne_nil (Nat.toDigits_ne_nil (b := 16) (n := w))
  rw [hc, List.cons_append, List.cons.injEq] at hr
  exact ne_colon_of_mem_toDigits (by rw [hc]; exact List.mem_cons_self) hr.1

/-- **Eight groups** separated by colons are read as their bytes. -/
theorem readBytes_groups {w : Nat} {ws : List Nat} (hw : ∀ x ∈ w :: ws, x < 65536) (hlen : ws.length = 7) :
    readBytes (Nat.toDigits 16 w ++ ws.flatMap (fun x => ':' :: Nat.toDigits 16 x)) =
      some ((w :: ws).flatMap groupBytes) := by
  rw [readBytes_toDigits, readChars_groups_finish ws w [] _ hw (by simp [hlen]), finish_none,
    List.nil_append, if_pos (by rw [length_flatMap_groupBytes]; simp [hlen])]

/-- **`::` and a dotted quad** are read as twelve zero bytes and the quad. -/
theorem readBytes_compatible (q : Ipv4) :
    readBytes (':' :: ':' :: q.toText.toList) = some (List.replicate 12 0 ++ q.toList) := by
  obtain ⟨g, hg⟩ := @readChars_dotted [] (some 0) q (by simp)
  rw [readBytes_colon_colon, readChars_gap, List.length_nil, hg]
  simp [finish_gap, Ipv4.toList]

/-- **`::ffff:` and a dotted quad** are read as ten zero bytes, two bytes
`0xff` and the quad. -/
theorem readBytes_mapped (q : Ipv4) :
    readBytes (':' :: ':' :: (Nat.toDigits 16 0xffff ++ ':' :: q.toText.toList)) =
      some (List.replicate 10 0 ++ groupBytes 0xffff ++ q.toList) := by
  have hq : q.toText.toList ≠ [] := by simp [Ipv4.toList_toText]
  obtain ⟨g, hg⟩ := @readChars_dotted ([] ++ groupBytes 0xffff) (some 0) q (by simp [groupBytes])
  rw [readBytes_colon_colon, readChars_gap, List.length_nil, readChars_group_colon (by decide) hq (by simp), hg]
  simp [finish_gap, Ipv4.toList, groupBytes]

/-- Finishing after the groups on both sides of `::` puts the missing zero
groups between them. -/
theorem finish_elided (P S : List Nat) (g : Nat) (tok : List Char) (h : P.length + S.length < 8) :
    finish ⟨P.flatMap groupBytes ++ S.flatMap groupBytes, some (2 * P.length), g, 0, tok⟩ =
      some (P.flatMap groupBytes ++ List.replicate (16 - 2 * (P.length + S.length)) 0 ++ S.flatMap groupBytes) := by
  have hP := length_flatMap_groupBytes P
  have hS := length_flatMap_groupBytes S
  rw [finish_gap, if_neg (by rw [List.length_append]; omega), List.length_append, hP, hS,
    List.take_left' hP, List.drop_left' hP, Nat.mul_add]

/-- Up to the `::`: the groups before it are stored and its place is marked,
whether or not there are any. -/
theorem readBytes_elided_start {P : List Nat} (hw : ∀ x ∈ P, x < 65536) (hfit : P.length < 8) (T : List Char) :
    readBytes ((":".intercalate (P.map groupText)).toList ++ ':' :: ':' :: T) =
      readChars ⟨P.flatMap groupBytes, some (2 * P.length), 0, 0, T⟩ T >>= finish := by
  cases P with
  | nil =>
    simp only [List.map_nil, String.intercalate_nil, String.toList_empty, List.nil_append]
    rw [readBytes_colon_colon, readChars_gap]
    rfl
  | cons p P =>
    rw [toList_intercalate_groupText, List.append_assoc, readBytes_toDigits, ← List.append_assoc,
      toDigits_flatMap_colon, readChars_groups_colon (List.cons_ne_nil _ _) _ _ _ hw (by simp at hfit ⊢; omega),
      if_neg (List.cons_ne_nil _ _), List.nil_append, readChars_gap, length_flatMap_groupBytes]

/-- **Groups around `::`**: the groups before it are read, the place of `::`
is marked, the groups after it are read, and finishing puts as many zero
groups at the mark as are missing. -/
theorem readBytes_elided {P S : List Nat} (hw : ∀ x ∈ P ++ S, x < 65536) (hfit : P.length + S.length < 8) :
    readBytes ((":".intercalate (P.map groupText)).toList ++ ':' :: ':' :: (":".intercalate (S.map groupText)).toList) =
      some (P.flatMap groupBytes ++ List.replicate (16 - 2 * (P.length + S.length)) 0 ++ S.flatMap groupBytes) := by
  rw [readBytes_elided_start (fun x hx => hw x (List.mem_append_left S hx)) (by omega)]
  cases S with
  | nil =>
    simp only [List.map_nil, String.intercalate_nil, String.toList_empty]
    rw [← finish_elided P [] 0 [] hfit, List.flatMap_nil, List.append_nil]
    rfl
  | cons s S =>
    rw [toList_intercalate_groupText, readChars_groups_finish S s _ _ (fun x hx => hw x (List.mem_append_right P hx))
      (by simp only [List.length_cons] at hfit; rw [length_flatMap_groupBytes]; omega)]
    exact finish_elided P (s :: S) 0 _ hfit

/-! ## The round trip -/

/-- **Reading the canonical text** returns the bytes of the address written.
The cases are the shapes `toText` chooses between. -/
theorem readBytes_toText (a : Ipv6) : readBytes a.toText.toList = some a.bytes := by
  have hw : ∀ x ∈ a.words, x < 65536 := fun x hx => lt_of_mem_words hx
  unfold toText
  dsimp only
  split
  · -- no run of two zero groups: eight groups
    obtain ⟨w, ws, hws⟩ := List.exists_cons_of_ne_nil (List.ne_nil_of_length_pos (by simp : 0 < a.words.length))
    have h7 : ws.length = 7 := by simpa [hws] using a.length_words
    rw [hws, toList_intercalate_groupText, readBytes_groups (hws ▸ hw) h7, ← hws, flatMap_groupBytes_words]
  · rename_i b l hrun
    obtain ⟨hl, hzero⟩ := longestZeroRun_spec hrun
    have hbytes := hzero.bytes
    have hle : b + l ≤ 8 := by simpa using hzero.add_le
    by_cases h6 : b = 0 ∧ l = 6
    · -- `::a.b.c.d`: the first six groups are zero
      obtain ⟨rfl, rfl⟩ := h6
      have htake : a.bytes.take 12 = List.replicate 12 0 := by rw [hbytes]; simp
      rw [if_pos ⟨rfl, rfl⟩, String.toList_append, tailText_eq,
        show ("::" : String).toList = [':', ':'] from rfl, List.cons_append, List.cons_append,
        List.nil_append, readBytes_compatible, toList_lastQuad, ← htake, List.take_append_drop]
    rw [if_neg h6]
    by_cases h5 : b = 0 ∧ l = 5 ∧ a.words.getD 5 0 = 0xffff
    · -- `::ffff:a.b.c.d`: five zero groups, then `ffff`
      obtain ⟨rfl, rfl, hffff⟩ := h5
      have hdrop : a.words.drop 5 = 0xffff :: a.words.drop 6 := by
        have h5 : a.words[5] = 0xffff := by simpa [List.getD_eq_getElem?_getD] using hffff
        rw [List.drop_eq_getElem_cons (by simp), h5]
      have htake : a.bytes.take 12 = List.replicate 10 0 ++ groupBytes 0xffff := by
        rw [hbytes, hdrop]
        simp [groupBytes]
      rw [if_pos ⟨rfl, rfl, hffff⟩, String.toList_append, tailText_eq,
        show ("::ffff:" : String).toList = ':' :: ':' :: (Nat.toDigits 16 0xffff ++ [':']) by decide,
        List.cons_append, List.cons_append, List.append_assoc, List.singleton_append, readBytes_mapped,
        toList_lastQuad, ← htake, List.take_append_drop]
    rw [if_neg h5]
    -- groups around `::`; a last colon stands for a run that ends the address
    have hend : (if b + l = 8 then ":" else "") = (if a.words.drop (b + l) = [] then ":" else "") := by
      by_cases h8 : b + l = 8
      · rw [if_pos h8, if_pos (List.drop_eq_nil_of_le (by simp; omega))]
      · rw [if_neg h8, if_neg (by simp; omega)]
    have hP : (a.words.take b).length = b := by simp; omega
    have hS : (a.words.drop (b + l)).length = 8 - (b + l) := by simp
    have hw' : ∀ x ∈ a.words.take b ++ a.words.drop (b + l), x < 65536 := by
      intro x hx
      rcases List.mem_append.1 hx with hx | hx
      · exact hw x (List.mem_of_mem_take hx)
      · exact hw x (List.mem_of_mem_drop hx)
    rw [hend, String.append_assoc, String.append_assoc, String.toList_append, toList_colon_join_groupText,
      readBytes_elided hw' (by omega), hP, hS, hbytes]
    rw [show 16 - 2 * (b + (8 - (b + l))) = 2 * l by omega]

/-- **Reading the canonical text gives the address back.** -/
theorem parse?_toText (a : Ipv6) : parse? a.toText = some a := by
  simp [parse?, readBytes_toText, a.length_bytes]

/-- **Canonical text round trip**: reading the text `toText` writes gives the
address back; so no two addresses are written alike, and every text written
is one the reader accepts. -/
theorem toText_roundTrip :
    (∀ a : Ipv6, parse? a.toText = some a) ∧ Function.Injective toText ∧
      ∀ a : Ipv6, (parse? a.toText).isSome := by
  refine ⟨parse?_toText, fun a a' h => ?_, fun a => by rw [parse?_toText]; rfl⟩
  have h' := congrArg parse? h
  rw [parse?_toText, parse?_toText] at h'
  exact Option.some.inj h'

end CimBroker.Address.Ipv6
