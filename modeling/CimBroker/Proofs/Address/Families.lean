import CimBroker.Address.Host
import CimBroker.Proofs.Address.Ipv6Reader

/-!
# The three address families are disjoint

A host text is read by three scanners: the IPv4 reader, the IPv6 reader and
the host-name check. This module shows that no text passes two of them, so
that `Host.parse` returns the family a text is whatever order it tries them
in, and that `classify` agrees with `Host.parse`.

The facts it rests on:

* every character of a host name is a label character or a dot, so a name
  has no colon (`Hostname.mem_of_scanLabels`);
* the last label of a name is not all digits, and a dotted quad's is, so no
  dotted quad is a name (`Hostname.isValid_toText`);
* every text the IPv6 reader accepts has a colon, and no text that starts
  with a dotted quad is accepted (`Ipv6.mem_of_readBytes`,
  `Ipv6.readBytes_eq_none_of_scan`).

`classify` lets an IPv4 address be followed by a colon and more text, which
`Host.parse` does not; those texts are the only ones on which the two part.

## Main results

* `Host.parse_eq_ok_ipv4_iff`, `Host.parse_eq_ok_ipv6_iff`,
  `Host.parse_eq_ok_name_iff` — what `Host.parse` returns, family by family.
* `classify_of_parse_eq_ok`, `classify_of_parse_fails` — `classify` against
  `Host.parse`.
* `host_families` — all of it together.
-/

namespace CimBroker.Address

/-! ## Host names -/

namespace Hostname

@[simp] theorem isLabelStart_dot : isLabelStart '.' = false := by decide

@[simp] theorem isLabelChar_dot : isLabelChar '.' = false := by decide

@[simp] theorem isLabelChar_colon : isLabelChar ':' = false := by decide

theorem isLabelChar_of_isLabelStart {c : Char} (h : isLabelStart c = true) : isLabelChar c = true := by
  simp only [isLabelStart, isLabelChar, Bool.or_eq_true, decide_eq_true_eq] at h ⊢
  rcases h with h | h
  · exact .inl (.inl h)
  · exact .inr h

theorem isLabelChar_of_isDigit {c : Char} (h : c.isDigit = true) : isLabelChar c = true := by
  simp [isLabelChar, Char.isAlphanum, h]

theorem isLabelStart_of_isDigit {c : Char} (h : c.isDigit = true) : isLabelStart c = true := by
  simp [isLabelStart, Char.isAlphanum, h]

/-- Every character of a name is a label character or a dot. The induction
is on the text. -/
theorem mem_of_scanLabels :
    ∀ (cs : List Char) (atStart allDigits : Bool), scanLabels cs atStart allDigits = true →
      ∀ c ∈ cs, isLabelChar c = true ∨ c = '.'
  | [], _, _, _ => by simp
  | c :: cs, true, _, h => by
    simp only [scanLabels] at h
    split at h
    · rename_i hc
      intro x hx
      rcases List.mem_cons.1 hx with rfl | hx
      · exact .inl (isLabelChar_of_isLabelStart hc)
      · exact mem_of_scanLabels cs _ _ h x hx
    · cases h
  | c :: cs, false, _, h => by
    simp only [scanLabels] at h
    split at h
    · rename_i hc
      intro x hx
      rcases List.mem_cons.1 hx with rfl | hx
      · exact .inl hc
      · exact mem_of_scanLabels cs _ _ h x hx
    · split at h
      · rename_i hc
        intro x hx
        rcases List.mem_cons.1 hx with rfl | hx
        · exact .inr hc
        · exact mem_of_scanLabels cs _ _ h x hx
      · cases h

/-- **A name has no colon.** -/
theorem not_mem_colon_of_isValid {s : String} (h : isValid s = true) : ':' ∉ s.toList := by
  intro hmem
  rcases mem_of_scanLabels _ _ _ h ':' hmem with hc | hc
  · simp at hc
  · cases hc

/-- A name read from some point on is still a name after any of its dots.
The induction is on the text before the dot. -/
theorem scanLabels_of_append_dot :
    ∀ (xs ds : List Char) (atStart allDigits : Bool),
      scanLabels (xs ++ '.' :: ds) atStart allDigits = true → scanLabels ds true true = true
  | [], ds, true, _, h => by simp [scanLabels] at h
  | [], ds, false, _, h => by simpa [scanLabels] using h
  | x :: xs, ds, true, _, h => by
    simp only [List.cons_append, scanLabels] at h
    split at h
    · exact scanLabels_of_append_dot xs ds _ _ h
    · cases h
  | x :: xs, ds, false, _, h => by
    simp only [List.cons_append, scanLabels] at h
    split at h
    · exact scanLabels_of_append_dot xs ds _ _ h
    · split at h
      · exact scanLabels_of_append_dot xs ds _ _ h
      · cases h

/-- A label that has been all digits so far stays so over more digits, and
cannot end the name. The induction is on the digits. -/
theorem scanLabels_digits :
    ∀ (ds : List Char), (∀ c ∈ ds, c.isDigit = true) → scanLabels ds false true = false
  | [], _ => rfl
  | c :: ds, h => by
    have hc := h c List.mem_cons_self
    simp only [scanLabels, isLabelChar_of_isDigit hc, if_true, hc, Bool.and_true]
    exact scanLabels_digits ds fun c' h' => h c' (List.mem_cons_of_mem c h')

/-- **A dotted quad is not a name**: its last label is all digits. -/
theorem isValid_toText (v : Ipv4) : isValid v.toText = false := by
  -- the last octet's digits, first and rest
  obtain ⟨c, ds, hc⟩ := List.exists_cons_of_ne_nil (Nat.toDigits_ne_nil (b := 10) (n := v.o4.toNat))
  have hdigit : ∀ x ∈ c :: ds, x.isDigit = true := fun x hx =>
    Nat.isDigit_of_mem_toDigits_ten (by rw [hc]; exact hx)
  have hlast : scanLabels (c :: ds) true true = false := by
    simp only [scanLabels, isLabelStart_of_isDigit (hdigit c List.mem_cons_self), if_true,
      hdigit c List.mem_cons_self]
    exact scanLabels_digits ds fun x hx => hdigit x (List.mem_cons_of_mem c hx)
  cases h : isValid v.toText with
  | false => rfl
  | true =>
    unfold isValid at h
    rw [Ipv4.toList_toText, hc,
      show ∀ (A B C : List Char), A ++ '.' :: B ++ '.' :: C ++ '.' :: (c :: ds) =
        (A ++ '.' :: B ++ '.' :: C) ++ '.' :: (c :: ds) from fun _ _ _ => rfl] at h
    rw [scanLabels_of_append_dot _ _ _ _ h] at hlast
    cases hlast

/-- A name is not read as an IPv4 address, even one followed by a colon. -/
theorem scan_eq_none_of_isValid {s : String} (h : isValid s = true) : Ipv4.scan s.toList = none := by
  cases hscan : Ipv4.scan s.toList with
  | none => rfl
  | some r =>
    obtain ⟨v, n⟩ := r
    obtain ⟨rest, hs, hrest, -⟩ := Ipv4.scan_eq_some_iff.1 hscan
    rcases hrest with rfl | ⟨r, rfl⟩
    · -- the whole text is the dotted quad
      rw [List.append_nil, String.toList_inj] at hs
      rw [hs, isValid_toText] at h
      cases h
    · -- the quad is followed by a colon
      exact absurd (by rw [hs]; simp) (not_mem_colon_of_isValid h)

end Hostname

/-! ## IPv6 texts -/

namespace Ipv6

/-- **Every IPv6 text has a colon.** -/
theorem mem_colon_of_parse? {s : String} {a : Ipv6} (h : parse? s = some a) : ':' ∈ s.toList := by
  unfold parse? at h
  split at h
  · cases h
  · exact mem_of_readBytes ‹_›

theorem parse?_eq_none_of_scan {s : String} {v : Ipv4} {n : Nat} (h : Ipv4.scan s.toList = some (v, n)) :
    parse? s = none := by
  simp [parse?, readBytes_eq_none_of_scan h]

theorem scan_eq_none_of_parse? {s : String} {a : Ipv6} (h : parse? s = some a) : Ipv4.scan s.toList = none := by
  cases hscan : Ipv4.scan s.toList with
  | none => rfl
  | some r =>
    rw [parse?_eq_none_of_scan hscan] at h
    cases h

theorem parse?_eq_none_of_isValid {s : String} (h : Hostname.isValid s = true) : parse? s = none := by
  cases hp : parse? s with
  | none => rfl
  | some a => exact absurd (mem_colon_of_parse? hp) (Hostname.not_mem_colon_of_isValid h)

end Ipv6

/-! ## Reading a host -/

namespace Host

theorem parse_of_scan_eq_none {s : String} (h : Ipv4.scan s.toList = none) : parse s = parse.rest s := by
  simp [parse, h]

theorem rest_ne_ipv4 (s : String) (v : Ipv4) : parse.rest s ≠ .ok (.ipv4 v) := by
  unfold parse.rest
  split
  · simp
  · split <;> simp

/-- **A whole IPv4 address** is read as one. -/
theorem parse_eq_ok_ipv4_iff {s : String} {v : Ipv4} :
    parse s = .ok (.ipv4 v) ↔ Ipv4.scan s.toList = some (v, s.length) := by
  constructor
  · intro h
    unfold parse at h
    split at h
    · rename_i a used hscan
      split at h
      · rename_i hused
        cases h
        rw [hscan, hused]
      · exact absurd h (rest_ne_ipv4 s v)
    · exact absurd h (rest_ne_ipv4 s v)
  · intro h
    simp [parse, h]

/-- **An IPv6 text** is read as its address: no such text is an IPv4
address, so the IPv4 reader never takes it first. -/
theorem parse_eq_ok_ipv6_iff {s : String} {a : Ipv6} : parse s = .ok (.ipv6 a) ↔ Ipv6.parse? s = some a := by
  constructor
  · intro h
    -- the IPv4 reader did not take the whole text
    have hrest : parse.rest s = .ok (.ipv6 a) := by
      unfold parse at h
      split at h
      · split at h
        · cases h
        · exact h
      · exact h
    unfold parse.rest at hrest
    split at hrest
    · cases hrest
      assumption
    · split at hrest <;> cases hrest
  · intro h
    rw [parse_of_scan_eq_none (Ipv6.scan_eq_none_of_parse? h)]
    simp [parse.rest, h]

/-- **A host name** is read as itself: no name is an IPv4 or an IPv6
address. -/
theorem parse_eq_ok_name_iff {s n : String} : parse s = .ok (.name n) ↔ Hostname.isValid s = true ∧ n = s := by
  constructor
  · intro h
    have hrest : parse.rest s = .ok (.name n) := by
      unfold parse at h
      split at h
      · split at h
        · cases h
        · exact h
      · exact h
    unfold parse.rest at hrest
    split at hrest
    · cases hrest
    · split at hrest
      · cases hrest
        exact ⟨‹_›, rfl⟩
      · cases hrest
  · rintro ⟨h, rfl⟩
    rw [parse_of_scan_eq_none (Hostname.scan_eq_none_of_isValid h)]
    simp [parse.rest, Ipv6.parse?_eq_none_of_isValid h, h]

end Host

/-! ## Classifying a text -/

/-- Where `Host.parse` reads a host, `classify` names its family. -/
theorem classify_of_parse_eq_ok {s : String} {h : Host} (hp : Host.parse s = .ok h) : classify s = h.family := by
  cases h with
  | ipv4 v =>
    have hscan := Host.parse_eq_ok_ipv4_iff.1 hp
    simp [classify, Ipv4.parse?, hscan, Host.family]
  | ipv6 a =>
    have h6 := Host.parse_eq_ok_ipv6_iff.1 hp
    simp [classify, Ipv4.parse?, Ipv6.scan_eq_none_of_parse? h6, h6, Host.family]
  | name n =>
    obtain ⟨hvalid, -⟩ := Host.parse_eq_ok_name_iff.1 hp
    simp [classify, Ipv4.parse?, Hostname.scan_eq_none_of_isValid hvalid, Ipv6.parse?_eq_none_of_isValid hvalid,
      hvalid, Host.family]

/-- An IPv4 address followed by a colon: the texts that `classify` calls
IPv4 and `Host.parse` does not read. -/
def Ipv4WithSuffix (s : String) : Prop := ∃ (v : Ipv4) (r : List Char), s.toList = v.toText.toList ++ ':' :: r

/-- The IPv4 reader takes a text that is not a whole address exactly when
the address is followed by a colon. -/
theorem isSome_scan_iff {s : String} (h : ∀ v, Ipv4.scan s.toList ≠ some (v, s.length)) :
    (Ipv4.scan s.toList).isSome ↔ Ipv4WithSuffix s := by
  constructor
  · intro hsome
    obtain ⟨⟨v, n⟩, hscan⟩ := Option.isSome_iff_exists.1 hsome
    obtain ⟨rest, hs, hrest, hn⟩ := Ipv4.scan_eq_some_iff.1 hscan
    rcases hrest with rfl | ⟨r, rfl⟩
    · -- with nothing after it, the address would be the whole text
      rw [List.append_nil, String.toList_inj] at hs
      exact absurd (by rw [hscan, hn, hs]) (h v)
    · exact ⟨v, r, hs⟩
  · rintro ⟨v, r, hs⟩
    rw [Ipv4.scan_eq_some_iff.2 ⟨':' :: r, hs, .inr ⟨r, rfl⟩, rfl⟩]
    rfl

/-- Where `Host.parse` reads nothing, `classify` calls an IPv4 address
followed by a colon IPv4, and every other text invalid. -/
theorem classify_of_parse_fails {s : String} (hp : ∀ h, Host.parse s ≠ .ok h) :
    (classify s = .ipv4 ∧ Ipv4WithSuffix s) ∨ (classify s = .invalid ∧ ¬ Ipv4WithSuffix s) := by
  have h4 : ∀ v, Ipv4.scan s.toList ≠ some (v, s.length) := fun v hv =>
    hp _ (Host.parse_eq_ok_ipv4_iff.2 hv)
  have h6 : Ipv6.parse? s = none := by
    cases h : Ipv6.parse? s with
    | none => rfl
    | some a => exact absurd (Host.parse_eq_ok_ipv6_iff.2 h) (hp _)
  have hname : Hostname.isValid s = false := by
    cases h : Hostname.isValid s with
    | false => rfl
    | true => exact absurd (Host.parse_eq_ok_name_iff.2 ⟨h, rfl⟩) (hp _)
  have hiff := isSome_scan_iff h4
  by_cases hsuffix : Ipv4WithSuffix s
  · left
    refine ⟨?_, hsuffix⟩
    simp [classify, Ipv4.parse?, hiff.2 hsuffix]
  · right
    refine ⟨?_, hsuffix⟩
    have hnone : (Ipv4.scan s.toList).isSome = false := by
      cases h : (Ipv4.scan s.toList).isSome with
      | false => rfl
      | true => exact absurd (hiff.1 h) hsuffix
    simp [classify, Ipv4.parse?, Option.isSome_map, hnone, h6, hname]

/-- **Address families**: no text is two of a whole IPv4 address, an IPv6
address and a host name; `Host.parse` reads each as what it is, whatever the
order it tries them in, and `classify` names the family it reads. Where
`Host.parse` reads nothing, `classify` calls an IPv4 address followed by a
colon IPv4, and every other text invalid. -/
theorem host_families (s : String) :
    ¬ ((∃ v, Ipv4.scan s.toList = some (v, s.length)) ∧ (Ipv6.parse? s).isSome) ∧
    ¬ ((∃ v, Ipv4.scan s.toList = some (v, s.length)) ∧ Hostname.isValid s = true) ∧
    ¬ ((Ipv6.parse? s).isSome ∧ Hostname.isValid s = true) ∧
    (∀ v, Host.parse s = .ok (.ipv4 v) ↔ Ipv4.scan s.toList = some (v, s.length)) ∧
    (∀ a, Host.parse s = .ok (.ipv6 a) ↔ Ipv6.parse? s = some a) ∧
    (∀ n, Host.parse s = .ok (.name n) ↔ Hostname.isValid s = true ∧ n = s) ∧
    (∀ h, Host.parse s = .ok h → classify s = h.family) ∧
    ((∀ h, Host.parse s ≠ .ok h) →
      (classify s = .ipv4 ∧ Ipv4WithSuffix s) ∨ (classify s = .invalid ∧ ¬ Ipv4WithSuffix s)) := by
  refine ⟨?_, ?_, ?_, fun _ => Host.parse_eq_ok_ipv4_iff, fun _ => Host.parse_eq_ok_ipv6_iff,
    fun _ => Host.parse_eq_ok_name_iff, fun _ => classify_of_parse_eq_ok, classify_of_parse_fails⟩
  · rintro ⟨⟨v, hscan⟩, h6⟩
    rw [Ipv6.parse?_eq_none_of_scan hscan] at h6
    cases h6
  · rintro ⟨⟨v, hscan⟩, hvalid⟩
    rw [Hostname.scan_eq_none_of_isValid hvalid] at hscan
    cases hscan
  · rintro ⟨h6, hvalid⟩
    rw [Ipv6.parse?_eq_none_of_isValid hvalid] at h6
    cases h6

end CimBroker.Address
