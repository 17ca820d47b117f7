import Mathlib.Data.List.Forall2
import CimBroker.Proofs.Address.Ipv6Grammar
import CimBroker.Proofs.Address.Ipv6Text

/-!
# The canonical IPv6 text

`Ipv6.toText` writes the eight groups of an address in lowercase
hexadecimal without leading zeros, joined by colons, except that the first
longest run of two or more zero groups is written `::`, and the last
thirty-two bits are written as a dotted quad when the run is the first six
groups, or the first five followed by `ffff`.

The run is found in two passes: `zeroRuns` lists the runs of zero groups
from left to right, and `longestZeroRun` keeps the first of the longest.
The first pass is described by `Runs`: each run it reports is a run of zero
groups, each ends before the next starts, and every run of zero groups lies
inside one of them. The second keeps a run only when it is strictly longer
than the one kept so far, so it ends with the first longest.

The text is then described by what stands on each side of the `::`:
groups joined by colons (`GroupsText`), which `List.splitOn` splits back
at their colons, so that no colon of theirs is first, last, or next to
another, and the `::` can be read in one place only.

## Main results

* `longestZeroRun_eq_some_iff` — the run written as `::` is the first
  longest run of two or more zero groups.
* `longestZeroRun_eq_none_iff` — there is none exactly when no two
  neighbouring groups are zero.
* `Pieces.eq_of_double_colon` — between two texts joined by colons, `::`
  is read in one place only.
* `toText_canonical` — the text is the eight groups and seven colons, or
  has one `::` standing for the first longest run of zero groups, with a
  dotted quad after it exactly when the run is the first six groups, or
  the first five followed by `ffff`.
-/

namespace CimBroker.Address.Ipv6

/-! ## Runs of zero groups -/

/-- Groups `b` to `b + l - 1` of `ws` are all zero. -/
def ZeroRun (ws : List Nat) (b l : Nat) : Prop := ∀ j, b ≤ j → j < b + l → ws[j]? = some 0

/-- Some two neighbouring groups of `ws` are zero. -/
def HasZeroPair (ws : List Nat) : Prop := ∃ b, ZeroRun ws b 2

/-- Groups `b` to `b + l - 1` are the first longest run of zero groups of
`ws`, and there are at least two of them. -/
structure FirstLongestRun (ws : List Nat) (b l : Nat) : Prop where
  run : ZeroRun ws b l
  two_le : 2 ≤ l
  longest : ∀ b' l', ZeroRun ws b' l' → l' ≤ l
  first : ∀ b', ZeroRun ws b' l → b ≤ b'

/-- `R` lists the runs of zero groups of `W` from group `o` on, from left to
right: each is a run of at least one zero group, each ends before the next
starts, and every run of zero groups from `o` on lies inside one of them. -/
structure Runs (W : List Nat) (o : Nat) (R : List (Nat × Nat)) : Prop where
  zero : ∀ r ∈ R, o ≤ r.1 ∧ 1 ≤ r.2 ∧ ZeroRun W r.1 r.2
  sorted : R.Pairwise fun r r' => r.1 + r.2 < r'.1
  covers : ∀ b l, 1 ≤ l → o ≤ b → ZeroRun W b l → ∃ r ∈ R, r.1 ≤ b ∧ b + l ≤ r.1 + r.2

theorem ZeroRun.add_le_length {ws : List Nat} {b l : Nat} (h : ZeroRun ws b l) (hl : 1 ≤ l) :
    b + l ≤ ws.length := by
  have := (List.getElem?_eq_some_iff.1 (h (b + l - 1) (by omega) (by omega))).1
  omega

/-- What `zeroRuns` knows of the run in progress `cur` when it has looked at
the first `i` groups of `W`: it ends just before group `i`, and it is a run
of at least one zero group. -/
def RunInProgress (W : List Nat) (i : Nat) (cur : Option (Nat × Nat)) : Prop :=
  ∀ c ∈ cur, c.1 + c.2 = i ∧ 1 ≤ c.2 ∧ ZeroRun W c.1 c.2

/-- Where the runs still to be reported start: at the run in progress, or
at the next group. -/
def RunInProgress.start (i : Nat) (cur : Option (Nat × Nat)) : Nat := (cur.map Prod.fst).getD i

namespace RunInProgress

variable {W : List Nat} {i : Nat} {cur : Option (Nat × Nat)}

/-- The run in progress, if there is one, is where the runs still to be
reported start. -/
theorem of_mem (hcur : RunInProgress W i cur) {r : Nat × Nat} (hr : r ∈ cur.toList) :
    start i cur = r.1 ∧ r.1 + r.2 = i ∧ 1 ≤ r.2 ∧ ZeroRun W r.1 r.2 := by
  cases cur with
  | none => cases hr
  | some c =>
    have hrc : r = c := by simpa using hr
    subst hrc
    exact ⟨rfl, hcur r rfl⟩

/-- The runs still to be reported start at most at the next group, and at
it when no run is in progress. -/
theorem start_le (hcur : RunInProgress W i cur) : start i cur ≤ i := by
  cases cur with
  | none => simp [start]
  | some c =>
    have := (hcur c rfl).1
    simp only [start, Option.map_some, Option.getD_some]
    omega

theorem start_none : start i none = i := rfl

/-- The run in progress is a run of zero groups from where the runs still
to be reported start. -/
theorem zero (hcur : RunInProgress W i cur) :
    ∀ r ∈ cur.toList, start i cur ≤ r.1 ∧ 1 ≤ r.2 ∧ ZeroRun W r.1 r.2 := by
  intro r hr
  obtain ⟨hstart, -, hpos, hz⟩ := hcur.of_mem hr
  exact ⟨Nat.le_of_eq hstart, hpos, hz⟩

/-- A run that starts no earlier than the runs still to be reported and
ends by group `i` lies inside the run in progress. -/
theorem covers (hcur : RunInProgress W i cur) {b l : Nat} (hl : 1 ≤ l) (hb : start i cur ≤ b)
    (hend : b + l ≤ i) : ∃ r ∈ cur.toList, r.1 ≤ b ∧ b + l ≤ r.1 + r.2 := by
  cases cur with
  | none => rw [start_none] at hb; omega
  | some c =>
    obtain ⟨hstart, hc, -, -⟩ := hcur.of_mem (List.mem_singleton_self c)
    exact ⟨c, List.mem_singleton_self c, hstart ▸ hb, by omega⟩

end RunInProgress

/-- At the end of the groups, the run in progress is the last run. -/
theorem Runs.last {W : List Nat} {i : Nat} {cur : Option (Nat × Nat)} (hlen : W.length = i)
    (hcur : RunInProgress W i cur) : Runs W (RunInProgress.start i cur) cur.toList := by
  refine ⟨hcur.zero, by cases cur <;> simp, fun b l hl hb hz => hcur.covers hl hb ?_⟩
  -- a run of zero groups ends by the end of the groups
  have := hz.add_le_length hl
  omega

/-- A group that is not zero ends the run in progress, which comes before
the runs after the group. -/
theorem Runs.flush {W : List Nat} {i : Nat} {cur : Option (Nat × Nat)} {R : List (Nat × Nat)}
    (hR : Runs W (i + 1) R) (hw : W[i]? ≠ some 0) (hcur : RunInProgress W i cur) :
    Runs W (RunInProgress.start i cur) (cur.toList ++ R) := by
  have hstart := hcur.start_le
  refine ⟨fun r hr => ?_, ?_, fun b l hl hb hz => ?_⟩
  · rcases List.mem_append.1 hr with hr | hr
    · exact hcur.zero r hr
    · obtain ⟨ho, hpos, hz⟩ := hR.zero r hr
      exact ⟨by omega, hpos, hz⟩
  · refine List.pairwise_append.2 ⟨by cases cur <;> simp, hR.sorted, fun r hr r' hr' => ?_⟩
    have := (hcur.of_mem hr).2.1
    have := (hR.zero r' hr').1
    omega
  · by_cases hafter : i + 1 ≤ b
    · obtain ⟨r, hr, hrb⟩ := hR.covers b l hl hafter hz
      exact ⟨r, List.mem_append_right _ hr, hrb⟩
    -- a run before the group that is not zero ends before it, inside the run in progress
    have hbefore : b + l ≤ i := Nat.le_of_not_lt fun hcross => hw (hz i (by omega) hcross)
    obtain ⟨r, hr, hrb⟩ := hcur.covers hl hb hbefore
    exact ⟨r, List.mem_append_left _ hr, hrb⟩

theorem ZeroRun.snoc {W : List Nat} {b l : Nat} (h : ZeroRun W b l) (hz : W[b + l]? = some 0) :
    ZeroRun W b (l + 1) := by
  intro j hbj hj
  by_cases hlast : j = b + l
  · rw [hlast, hz]
  · exact h j hbj (by omega)

/-- **The runs of zero groups.** `zeroRuns`, having looked at the groups
`front` of `W`, reports the runs of zero groups from the run in progress
on. The induction is on the groups not yet looked at: a zero group extends
the run in progress (or starts one) and leaves the runs to report as they
were; any other group ends it (`Runs.flush`). -/
theorem zeroRuns_runs {W : List Nat} : ∀ (ws front : List Nat) (cur : Option (Nat × Nat)), W = front ++ ws →
    RunInProgress W front.length cur →
      Runs W (RunInProgress.start front.length cur) (zeroRuns ws front.length cur)
  | [], front, cur, hW, hcur => by
    rw [zeroRuns.eq_1]
    exact Runs.last (by simp [hW]) hcur
  | w :: ws, front, cur, hW, hcur => by
    have hW' : W = (front ++ [w]) ++ ws := by simp [hW]
    have hw : W[front.length]? = some w := by simp [hW]
    have hlen : (front ++ [w]).length = front.length + 1 := by simp
    by_cases h0 : w = 0
    · subst h0
      rcases cur with _ | ⟨b, l⟩
      · -- a zero group starts a run
        have hnew : RunInProgress W (front ++ [0]).length (some (front.length, 1)) := by
          intro c hc
          obtain rfl : (front.length, 1) = c := Option.some.inj hc
          refine ⟨hlen.symm, Nat.le_refl 1, ?_⟩
          intro j hj hj'
          rw [show j = front.length by omega, hw]
        simpa [zeroRuns, RunInProgress.start] using zeroRuns_runs ws (front ++ [0]) _ hW' hnew
      · -- a zero group extends the run in progress
        obtain ⟨hend, hpos, hz⟩ := hcur (b, l) rfl
        have hnew : RunInProgress W (front ++ [0]).length (some (b, l + 1)) := by
          intro c hc
          obtain rfl : (b, l + 1) = c := Option.some.inj hc
          refine ⟨by simp only [hlen]; omega, by omega, hz.snoc ?_⟩
          simp only at hend
          rw [hend, hw]
        simpa [zeroRuns, RunInProgress.start] using zeroRuns_runs ws (front ++ [0]) _ hW' hnew
    · -- any other group ends the run in progress
      have hrest := zeroRuns_runs ws (front ++ [w]) none hW' (fun c hc => by cases hc)
      rw [hlen] at hrest
      simpa [zeroRuns, h0] using Runs.flush hrest (by rw [hw]; simpa using h0) hcur

/-- The runs of zero groups of `ws`, from left to right. -/
theorem runs_zeroRuns (ws : List Nat) : Runs ws 0 (zeroRuns ws 0 none) :=
  zeroRuns_runs ws [] none (by simp) (fun c hc => by cases hc)

/-! ## The first longest run -/

/-- The step of the search for the longest run: the run kept so far stays
unless the next one is strictly longer. -/
def keepLonger (best : Option (Nat × Nat)) (run : Nat × Nat) : Option (Nat × Nat) :=
  match best with
  | none => some run
  | some b => if run.2 > b.2 then some run else some b

theorem longestZeroRun_eq (ws : List Nat) :
    longestZeroRun ws = ((zeroRuns ws 0 none).foldl keepLonger none).filter (fun r => r.2 ≥ 2) := rfl

/-- **The search keeps the first longest run.** Starting from `m`, the
search over `xs` ends with a run at least as long as every other, and
strictly longer than every run before it. The induction is on `xs`. -/
theorem foldl_keepLonger : ∀ (xs : List (Nat × Nat)) (m : Nat × Nat), ∃ best,
    xs.foldl keepLonger (some m) = some best ∧ (∀ r ∈ m :: xs, r.2 ≤ best.2) ∧
      ∃ pre post, m :: xs = pre ++ best :: post ∧ ∀ r ∈ pre, r.2 < best.2
  | [], m => ⟨m, rfl, by simp, [], [], rfl, by simp⟩
  | x :: xs, m => by
    rw [List.foldl_cons, keepLonger]
    split
    · -- a strictly longer run replaces `m`, which joins the runs before the best
      rename_i hlt
      obtain ⟨best, hbest, hle, pre, post, hsplit, hpre⟩ := foldl_keepLonger xs x
      have hx := hle x List.mem_cons_self
      refine ⟨best, hbest, ?_, m :: pre, post, by rw [hsplit]; rfl, ?_⟩
      · intro r hr
        rcases List.mem_cons.1 hr with rfl | hr
        · omega
        · exact hle r hr
      · intro r hr
        rcases List.mem_cons.1 hr with rfl | hr
        · omega
        · exact hpre r hr
    · -- `m` stays; `x`, no longer, joins the runs before the best or after it
      rename_i hge
      obtain ⟨best, hbest, hle, pre, post, hsplit, hpre⟩ := foldl_keepLonger xs m
      have hm := hle m List.mem_cons_self
      refine ⟨best, hbest, ?_, ?_⟩
      · intro r hr
        rcases List.mem_cons.1 hr with rfl | hr
        · exact hm
        rcases List.mem_cons.1 hr with rfl | hr
        · omega
        · exact hle r (List.mem_cons_of_mem _ hr)
      · cases pre with
        | nil =>
          obtain ⟨rfl, rfl⟩ : m = best ∧ xs = post := by simpa using hsplit
          exact ⟨[], x :: xs, rfl, by simp⟩
        | cons p pre =>
          obtain ⟨rfl, rfl⟩ : m = p ∧ xs = pre ++ best :: post := by simpa using hsplit
          refine ⟨m :: x :: pre, post, by simp, ?_⟩
          have hmb := hpre m List.mem_cons_self
          intro r hr
          rcases List.mem_cons.1 hr with rfl | hr
          · exact hmb
          rcases List.mem_cons.1 hr with rfl | hr
          · omega
          · exact hpre r (List.mem_cons_of_mem _ hr)

/-- What the search returns: nothing when there is no run of zero groups,
and otherwise the first longest run, when it has at least two groups. -/
theorem longestZeroRun_cases (ws : List Nat) :
    (zeroRuns ws 0 none = [] ∧ longestZeroRun ws = none) ∨
      ∃ best, (∀ r ∈ zeroRuns ws 0 none, r.2 ≤ best.2) ∧
        (∃ pre post, zeroRuns ws 0 none = pre ++ best :: post ∧ ∀ r ∈ pre, r.2 < best.2) ∧
        longestZeroRun ws = (some best).filter (fun r => r.2 ≥ 2) := by
  rw [longestZeroRun_eq]
  cases zeroRuns ws 0 none with
  | nil => exact .inl ⟨rfl, rfl⟩
  | cons x xs =>
    obtain ⟨best, hbest, hle, hsplit⟩ := foldl_keepLonger xs x
    exact .inr ⟨best, hle, hsplit, by rw [List.foldl_cons, keepLonger, hbest]⟩

theorem ZeroRun.mono {ws : List Nat} {b l l' : Nat} (h : ZeroRun ws b l) (hl : l' ≤ l) : ZeroRun ws b l' :=
  fun j hbj hj => h j hbj (by omega)

theorem FirstLongestRun.hasZeroPair {ws : List Nat} {b l : Nat} (h : FirstLongestRun ws b l) : HasZeroPair ws :=
  ⟨b, h.run.mono h.two_le⟩

/-- There is one first longest run. -/
theorem FirstLongestRun.unique {ws : List Nat} {b l b' l' : Nat} (h : FirstLongestRun ws b l)
    (h' : FirstLongestRun ws b' l') : b = b' ∧ l = l' := by
  have hl : l = l' := Nat.le_antisymm (h'.longest b l h.run) (h.longest b' l' h'.run)
  subst hl
  exact ⟨Nat.le_antisymm (h.first b' h'.run) (h'.first b h.run), rfl⟩

/-- **The run written as `::` is the first longest run of zero groups.** -/
theorem firstLongestRun_of_longestZeroRun {ws : List Nat} {b l : Nat} (h : longestZeroRun ws = some (b, l)) :
    FirstLongestRun ws b l := by
  have hR := runs_zeroRuns ws
  rcases longestZeroRun_cases ws with ⟨-, hnone⟩ | ⟨best, hle, ⟨pre, post, hsplit, hpre⟩, hbest⟩
  · rw [hnone] at h
    cases h
  obtain ⟨hsome, htwo⟩ := Option.filter_eq_some_iff.1 (hbest.symm.trans h)
  obtain rfl : best = (b, l) := Option.some.inj hsome
  have htwo : 2 ≤ l := by simpa using htwo
  have hmem : (b, l) ∈ zeroRuns ws 0 none := by simp [hsplit]
  -- a run of zero groups lies inside a reported run, which is no longer than `(b, l)`
  have hinside : ∀ b' l', 1 ≤ l' → ZeroRun ws b' l' → ∃ r ∈ zeroRuns ws 0 none,
      r.1 ≤ b' ∧ b' + l' ≤ r.1 + r.2 ∧ r.2 ≤ l := by
    intro b' l' hl' hz
    obtain ⟨r, hr, hrb⟩ := hR.covers b' l' hl' (Nat.zero_le _) hz
    exact ⟨r, hr, hrb.1, hrb.2, hle r hr⟩
  refine ⟨(hR.zero _ hmem).2.2, htwo, fun b' l' hz => ?_, fun b' hz => ?_⟩
  · rcases Nat.eq_zero_or_pos l' with rfl | hl'
    · exact Nat.zero_le _
    obtain ⟨r, -, hrb, hre, hrl⟩ := hinside b' l' hl' hz
    omega
  · -- a run as long as `(b, l)` is a whole reported run: `(b, l)` itself or one after it
    obtain ⟨r, hr, hrb, hre, hrl⟩ := hinside b' l (by omega) hz
    have hsorted := hR.sorted
    rw [hsplit] at hr hsorted
    rcases List.mem_append.1 hr with hr | hr
    · have := hpre r hr
      omega
    rcases List.mem_cons.1 hr with rfl | hr
    · simp only at hrb
      exact hrb
    · have := (List.pairwise_cons.1 (List.pairwise_append.1 hsorted).2.1).1 r hr
      simp only at this
      omega

/-- There is no run to write as `::` exactly when no two neighbouring
groups are zero. -/
theorem longestZeroRun_eq_none_iff {ws : List Nat} : longestZeroRun ws = none ↔ ¬ HasZeroPair ws := by
  constructor
  · rintro h ⟨i, hz⟩
    -- the two zero groups lie inside a reported run of at least two groups
    obtain ⟨r, hr, hrb⟩ := (runs_zeroRuns ws).covers i 2 (by decide) (Nat.zero_le _) hz
    rcases longestZeroRun_cases ws with ⟨hnil, -⟩ | ⟨best, hle, -, hbest⟩
    · rw [hnil] at hr
      cases hr
    · have := hle r hr
      rw [h, eq_comm, Option.filter_eq_none_iff] at hbest
      exact hbest best rfl (by simp; omega)
  · intro h
    cases hl : longestZeroRun ws with
    | none => rfl
    | some r => exact absurd (firstLongestRun_of_longestZeroRun hl).hasZeroPair h

theorem longestZeroRun_eq_some_iff {ws : List Nat} {b l : Nat} :
    longestZeroRun ws = some (b, l) ↔ FirstLongestRun ws b l := by
  refine ⟨firstLongestRun_of_longestZeroRun, fun h => ?_⟩
  cases hl : longestZeroRun ws with
  | none => exact absurd h.hasZeroPair (longestZeroRun_eq_none_iff.1 hl)
  | some r =>
    obtain ⟨rfl, rfl⟩ := (firstLongestRun_of_longestZeroRun hl).unique h
    rfl

/-! ## Texts of groups -/

/-- `t` is `w` in lowercase hexadecimal without leading zeros. -/
structure LowerHex (t : List Char) (w : Nat) : Prop where
  ne_nil : t ≠ []
  digits : ∀ c ∈ t, c.isDigit ∨ ('a' ≤ c ∧ c ≤ 'f')
  no_leading_zero : t.head? = some '0' → t = ['0']
  value : hexDigitsValue t = w

/-- The groups `ws`, each in lowercase hexadecimal without leading zeros,
joined by colons. -/
def GroupsText (ws : List Nat) (t : List Char) : Prop :=
  ∃ ts, List.Forall₂ (fun w t => LowerHex t w) ws ts ∧ t = [':'].intercalate ts

/-- Texts joined by colons, none empty and none with a colon. -/
def Pieces (t : List Char) : Prop :=
  ∃ ts : List (List Char), (∀ p ∈ ts, p ≠ [] ∧ ':' ∉ p) ∧ t = [':'].intercalate ts

theorem digitChar_lowerHex : ∀ d < 16, d.digitChar.isDigit ∨ ('a' ≤ d.digitChar ∧ d.digitChar ≤ 'f') := by
  decide

/-- A group's text is the group in lowercase hexadecimal without leading
zeros. -/
theorem lowerHex_toDigits (w : Nat) : LowerHex (Nat.toDigits 16 w) w := by
  refine ⟨Nat.toDigits_ne_nil, fun c hc => ?_, fun h0 => ?_, foldl_hexValue_toDigits w⟩
  · obtain ⟨d, hd, rfl⟩ := Nat.exists_digitChar_of_mem_toDigits (by decide) hc
    exact digitChar_lowerHex d hd
  · -- a group below 16 is one digit, which is `0` only for zero; a larger one starts with another digit
    rcases Nat.lt_or_ge w 16 with hlt | hge
    · rw [Nat.toDigits_of_lt_base hlt] at h0 ⊢
      simp only [List.head?_cons, Option.some.injEq, Nat.digitChar_eq_zero] at h0
      subst h0
      rfl
    · exact absurd h0 (Nat.head?_toDigits_ne_zero (by decide) hge)

theorem groupsText_toDigits (ws : List Nat) : GroupsText ws ([':'].intercalate (ws.map (Nat.toDigits 16))) :=
  ⟨_, List.forall₂_map_right_iff.2 (List.forall₂_same.2 fun w _ => lowerHex_toDigits w), rfl⟩

/-- A group's text has no character other than hexadecimal digits, such as
a colon or a dot. -/
theorem LowerHex.ne_of_mem {t : List Char} {w : Nat} (h : LowerHex t w) {c d : Char} (hc : c ∈ t)
    (hd : ¬ (d.isDigit ∨ ('a' ≤ d ∧ d ≤ 'f'))) : c ≠ d := by
  rintro rfl
  exact hd (h.digits c hc)

/-- A character of texts joined by colons is a colon or a character of one
of them. -/
theorem mem_intercalate_colon {c : Char} : ∀ {ts : List (List Char)}, c ∈ [':'].intercalate ts → c = ':' ∨ ∃ p ∈ ts, c ∈ p
  | [], h => by simp at h
  | [p], h => .inr ⟨p, List.mem_singleton_self p, by simpa using h⟩
  | p :: q :: ts, h => by
    rw [List.intercalate_cons_cons] at h
    rcases List.mem_append.1 h with h | h
    · rcases List.mem_append.1 h with h | h
      · exact .inr ⟨p, List.mem_cons_self, h⟩
      · exact .inl (List.mem_singleton.1 h)
    · rcases mem_intercalate_colon h with h | ⟨p', hp', h⟩
      · exact .inl h
      · exact .inr ⟨p', List.mem_cons_of_mem p hp', h⟩

/-- Every text that `R` relates to some group is related to one of the
groups. The recursion is on the relation. -/
theorem exists_of_forall₂ {R : Nat → List Char → Prop} :
    ∀ {ws : List Nat} {ts : List (List Char)}, List.Forall₂ R ws ts → ∀ t ∈ ts, ∃ w ∈ ws, R w t
  | _, _, .nil, _, ht => by cases ht
  | _, _, .cons hr h, t, ht => by
    rcases List.mem_cons.1 ht with rfl | ht
    · exact ⟨_, List.mem_cons_self, hr⟩
    · obtain ⟨w, hw, hwt⟩ := exists_of_forall₂ h t ht
      exact ⟨w, List.mem_cons_of_mem _ hw, hwt⟩

theorem GroupsText.pieces {ws : List Nat} {t : List Char} (h : GroupsText ws t) : Pieces t := by
  obtain ⟨ts, hts, rfl⟩ := h
  refine ⟨ts, fun p hp => ?_, rfl⟩
  obtain ⟨w, -, hw⟩ := exists_of_forall₂ hts p hp
  exact ⟨hw.ne_nil, fun hc => hw.ne_of_mem hc (by decide) rfl⟩

/-- The groups' text has no dot. -/
theorem GroupsText.not_mem_dot {ws : List Nat} {t : List Char} (h : GroupsText ws t) : '.' ∉ t := by
  obtain ⟨ts, hts, rfl⟩ := h
  intro hmem
  rcases mem_intercalate_colon hmem with h | ⟨p, hp, hc⟩
  · exact absurd h (by decide)
  · obtain ⟨w, -, hw⟩ := exists_of_forall₂ hts p hp
    exact hw.ne_of_mem hc (by decide) rfl

/-- Texts joined by colons have as many colons as there are texts, less
one, when no text has a colon. -/
theorem count_colon_intercalate : ∀ {ts : List (List Char)}, (∀ p ∈ ts, ':' ∉ p) →
    ([':'].intercalate ts).count ':' = ts.length - 1
  | [], _ => rfl
  | [p], h => by simpa using List.count_eq_zero.2 (h p (List.mem_singleton_self p))
  | p :: q :: ts, h => by
    rw [List.intercalate_cons_cons, List.count_append, List.count_append,
      count_colon_intercalate fun r hr => h r (List.mem_cons_of_mem p hr),
      List.count_eq_zero.2 (h p List.mem_cons_self)]
    simp
    omega

/-- The groups' text has a colon between each two groups and no other. -/
theorem GroupsText.count_colon {ws : List Nat} {t : List Char} (h : GroupsText ws t) :
    t.count ':' = ws.length - 1 := by
  obtain ⟨ts, hts, rfl⟩ := h
  rw [count_colon_intercalate fun p hp hc => ?_, hts.length_eq]
  obtain ⟨w, -, hw⟩ := exists_of_forall₂ hts p hp
  exact hw.ne_of_mem hc (by decide) rfl

/-! ## Where a colon can stand

Texts joined by colons are split back at their colons by `List.splitOn`,
so a colon of such a text has a text on each side: it is neither first nor
last, and never followed by another colon. -/

/-- A colon of texts joined by colons has a text before it and a text
after it, which does not start with a colon. -/
theorem Pieces.colon_between {t x y : List Char} (h : Pieces t) (ht : t = x ++ ':' :: y) :
    x ≠ [] ∧ y ≠ [] ∧ ∀ y', y ≠ ':' :: y' := by
  obtain ⟨ts, hts, rfl⟩ := h
  have hne : ts ≠ [] := by
    rintro rfl
    simp at ht
  have hsplit : x.splitOn ':' ++ y.splitOn ':' = ts := by
    rw [← List.splitOn_append_cons_self, ← ht]
    exact List.splitOn_intercalate ':' (fun p hp => (hts p hp).2) hne
  have hnil : [] ∉ ts := fun hmem => (hts [] hmem).1 rfl
  refine ⟨?_, ?_, ?_⟩
  · rintro rfl
    exact hnil (hsplit ▸ by simp [List.splitOn_nil])
  · rintro rfl
    exact hnil (hsplit ▸ by simp [List.splitOn_nil])
  · rintro y' rfl
    rw [← List.nil_append (':' :: y'), List.splitOn_append_cons_self, List.splitOn_nil] at hsplit
    exact hnil (hsplit ▸ by simp)

/-- **One `::`.** Between two texts joined by colons, `::` can be read in
one place only. -/
theorem Pieces.eq_of_double_colon {L R x y : List Char} (hL : Pieces L) (hR : Pieces R)
    (h : x ++ ':' :: ':' :: y = L ++ ':' :: ':' :: R) : x = L ∧ y = R := by
  rcases List.append_eq_append_iff.1 h with ⟨a', rfl, ha⟩ | ⟨c', rfl, hc⟩
  · cases a' with
    | nil => simpa using ha
    | cons c a' =>
      -- `x`'s `::` would end inside `L`, whose last colon is followed by a text
      obtain ⟨rfl, ha⟩ : ':' = c ∧ ':' :: y = a' ++ ':' :: ':' :: R := by simpa using ha
      obtain ⟨-, hne, hhead⟩ := hL.colon_between (x := x) (y := a') rfl
      cases a' with
      | nil => exact absurd rfl hne
      | cons d a' =>
        obtain ⟨rfl, -⟩ : ':' = d ∧ y = a' ++ ':' :: ':' :: R := by simpa using ha
        exact absurd rfl (hhead a')
  · cases c' with
    | nil => simpa using hc.symm
    | cons c c' =>
      -- `y`'s `::` would start inside `R`, which starts with a text
      obtain ⟨rfl, hc⟩ : ':' = c ∧ ':' :: R = c' ++ ':' :: ':' :: y := by simpa using hc
      cases c' with
      | nil =>
        obtain ⟨hne, -, -⟩ := hR.colon_between (x := []) (y := y) (by simpa using hc)
        exact absurd rfl hne
      | cons d c' =>
        obtain ⟨rfl, hR'⟩ : ':' = d ∧ R = c' ++ ':' :: ':' :: y := by simpa using hc
        exact absurd rfl ((hR.colon_between hR').2.2 y)

/-! ## The shapes of the canonical text -/

/-- The run written as `::` is the first six groups, or the first five
followed by `ffff`: the last thirty-two bits are then written as a dotted
quad. -/
def DottedRun (ws : List Nat) (b l : Nat) : Prop :=
  b = 0 ∧ (l = 6 ∨ (l = 5 ∧ ws[5]? = some 0xffff))

theorem getD_five_eq_iff {ws : List Nat} : ws.getD 5 0 = 0xffff ↔ ws[5]? = some 0xffff := by
  rw [List.getD_eq_getElem?_getD]
  cases ws[5]? <;> simp

theorem colon_not_mem_quad (q : Ipv4) : ':' ∉ q.toText.toList := by
  have hdigits : ∀ n, ':' ∉ Nat.toDigits 10 n := fun n h => absurd (Nat.isDigit_of_mem_toDigits_ten h) (by decide)
  simp [Ipv4.toList_toText, hdigits]

theorem dot_mem_quad (q : Ipv4) : '.' ∈ q.toText.toList := by
  simp [Ipv4.toList_toText]

theorem toList_intercalate_map_groupText (ws : List Nat) :
    (":".intercalate (ws.map groupText)).toList = [':'].intercalate (ws.map (Nat.toDigits 16)) := by
  simp [String.toList_intercalate, List.map_map, Function.comp_def, toList_groupText]

/-- With no two neighbouring zero groups, the text is the eight groups
joined by colons. -/
theorem toList_toText_of_none {a : Ipv6} (h : longestZeroRun a.words = none) :
    a.toText.toList = [':'].intercalate (a.words.map (Nat.toDigits 16)) := by
  unfold toText
  simp only [h, toList_intercalate_map_groupText]

/-- A dotted run is written `::`, then `ffff:` for a run of five, then the
dotted quad. -/
theorem toList_toText_dotted {a : Ipv6} {b l : Nat} (h : longestZeroRun a.words = some (b, l))
    (hd : DottedRun a.words b l) :
    a.toText.toList = ':' :: ':' :: ((if l = 5 then "ffff:".toList else []) ++ a.lastQuad.toText.toList) := by
  unfold toText
  simp only [h]
  obtain ⟨rfl, rfl | ⟨rfl, hffff⟩⟩ := hd
  · rw [if_pos ⟨rfl, rfl⟩, String.toList_append, tailText_eq]
    rfl
  · rw [if_neg (by decide), if_pos ⟨rfl, rfl, getD_five_eq_iff.2 hffff⟩, String.toList_append, tailText_eq]
    rfl

/-- Any other run is written `::` between the groups before it and the
groups after it, each joined by colons. -/
theorem toList_toText_elided {a : Ipv6} {b l : Nat} (h : longestZeroRun a.words = some (b, l))
    (hd : ¬ DottedRun a.words b l) :
    a.toText.toList = [':'].intercalate ((a.words.take b).map (Nat.toDigits 16)) ++
      ':' :: ':' :: [':'].intercalate ((a.words.drop (b + l)).map (Nat.toDigits 16)) := by
  have hle : b + l ≤ 8 := by simpa using (longestZeroRun_spec h).2.add_le
  -- a last colon stands for a run that ends the address, which leaves no group after it
  have hend : (if b + l = 8 then ":" else "") = (if a.words.drop (b + l) = [] then ":" else "") := by
    by_cases h8 : b + l = 8
    · rw [if_pos h8, if_pos (List.drop_eq_nil_of_le (by simp; omega))]
    · rw [if_neg h8, if_neg (by simp; omega)]
  unfold toText
  simp only [h]
  rw [if_neg fun h6 => hd ⟨h6.1, .inl h6.2⟩,
    if_neg fun h5 => hd ⟨h5.1, .inr ⟨h5.2.1, getD_five_eq_iff.1 h5.2.2⟩⟩,
    hend, String.append_assoc, String.append_assoc, String.toList_append, toList_colon_join_groupText,
    toList_intercalate_map_groupText, toList_intercalate_map_groupText]

/-- The text after the `::`: the dotted quad, after `ffff:` for a run of
five, when the run is dotted, and otherwise the groups after the run. -/
theorem toText_split {a : Ipv6} {b l : Nat} (h : longestZeroRun a.words = some (b, l)) :
    ∃ y, a.toText.toList = [':'].intercalate ((a.words.take b).map (Nat.toDigits 16)) ++ ':' :: ':' :: y ∧
      Pieces y ∧
      (DottedRun a.words b l → ∃ q, y = (if l = 5 then "ffff:".toList else []) ++ q ∧ Ipv4.Literal q a.lastQuad) ∧
      (¬ DottedRun a.words b l → GroupsText (a.words.drop (b + l)) y) := by
  by_cases hd : DottedRun a.words b l
  · have hq : a.lastQuad.toText.toList ≠ [] ∧ ':' ∉ a.lastQuad.toText.toList :=
      ⟨List.ne_nil_of_mem (dot_mem_quad _), colon_not_mem_quad _⟩
    refine ⟨_, ?_, ?_, fun _ => ⟨_, rfl, Ipv4.literal_iff.2 rfl⟩, fun hnd => absurd hd hnd⟩
    · rw [toList_toText_dotted h hd, hd.1]
      rfl
    · -- `ffff` and the quad, or the quad alone
      by_cases h5 : l = 5
      · refine ⟨["ffff".toList, a.lastQuad.toText.toList], ?_, ?_⟩
        · intro p hp
          rcases List.mem_pair.1 hp with hp | hp
          · rw [hp]
            exact ⟨by decide, by decide⟩
          · rw [hp]
            exact hq
        · have hffff : "ffff:".toList = "ffff".toList ++ [':'] := by decide
          rw [if_pos h5, hffff, List.intercalate_cons_cons, List.intercalate_singleton]
      · exact ⟨[a.lastQuad.toText.toList], by simpa using hq,
          by rw [if_neg h5, List.nil_append, List.intercalate_singleton]⟩
  · exact ⟨_, toList_toText_elided h hd, (groupsText_toDigits _).pieces, fun hd' => absurd hd' hd,
      fun _ => groupsText_toDigits _⟩

/-- With no two neighbouring zero groups, the text is the eight groups,
seven colons and no `::`. -/
theorem toText_of_not_hasZeroPair {a : Ipv6} (h : ¬ HasZeroPair a.words) :
    GroupsText a.words a.toText.toList ∧ a.toText.toList.count ':' = 7 ∧
      ∀ x y, a.toText.toList ≠ x ++ ':' :: ':' :: y := by
  have hgroups : GroupsText a.words a.toText.toList := by
    rw [toList_toText_of_none (longestZeroRun_eq_none_iff.2 h)]
    exact groupsText_toDigits _
  refine ⟨hgroups, by rw [hgroups.count_colon, length_words], fun x y hxy => ?_⟩
  exact (hgroups.pieces.colon_between hxy).2.2 y rfl

/-- With two neighbouring zero groups, the text has one `::`, which stands
for the first longest run of zero groups: before it are the groups before
the run, and after it the dotted quad or the groups after the run. -/
theorem toText_of_hasZeroPair {a : Ipv6} (h : HasZeroPair a.words) :
    ∃ b l, FirstLongestRun a.words b l ∧ ∃ x y, a.toText.toList = x ++ ':' :: ':' :: y ∧
      (∀ x' y', a.toText.toList = x' ++ ':' :: ':' :: y' → x' = x ∧ y' = y) ∧
      GroupsText (a.words.take b) x ∧
      (DottedRun a.words b l → ∃ q, y = (if l = 5 then "ffff:".toList else []) ++ q ∧ Ipv4.Literal q a.lastQuad) ∧
      (¬ DottedRun a.words b l → GroupsText (a.words.drop (b + l)) y) := by
  cases hl : longestZeroRun a.words with
  | none => exact absurd h (longestZeroRun_eq_none_iff.1 hl)
  | some r =>
    obtain ⟨b, l⟩ := r
    obtain ⟨y, htext, hy, hdotted, helided⟩ := toText_split hl
    have hx := groupsText_toDigits (a.words.take b)
    refine ⟨b, l, firstLongestRun_of_longestZeroRun hl, _, y, htext, fun x' y' h' => ?_, hx, hdotted, helided⟩
    exact Pieces.eq_of_double_colon hx.pieces hy (h'.symm.trans htext)

/-- The text has a dot exactly when the run written as `::` is dotted. -/
theorem dot_mem_toText_iff (a : Ipv6) :
    '.' ∈ a.toText.toList ↔ ∃ b l, FirstLongestRun a.words b l ∧ DottedRun a.words b l := by
  constructor
  · intro hdot
    cases hl : longestZeroRun a.words with
    | none =>
      rw [toList_toText_of_none hl] at hdot
      exact absurd hdot (groupsText_toDigits _).not_mem_dot
    | some r =>
      obtain ⟨b, l⟩ := r
      by_cases hd : DottedRun a.words b l
      · exact ⟨b, l, firstLongestRun_of_longestZeroRun hl, hd⟩
      -- the groups on both sides of `::` have no dot
      rw [toList_toText_elided hl hd, List.mem_append, List.mem_cons, List.mem_cons] at hdot
      rcases hdot with hdot | hdot | hdot | hdot
      · exact absurd hdot (groupsText_toDigits _).not_mem_dot
      · exact absurd hdot (by decide)
      · exact absurd hdot (by decide)
      · exact absurd hdot (groupsText_toDigits _).not_mem_dot
  · rintro ⟨b, l, hrun, hd⟩
    rw [toList_toText_dotted (longestZeroRun_eq_some_iff.2 hrun) hd]
    exact List.mem_cons_of_mem _ (List.mem_cons_of_mem _ (List.mem_append_right _ (dot_mem_quad _)))

/-- **The canonical text.** With no two neighbouring zero groups, the text
is the eight groups in lowercase hexadecimal without leading zeros, joined by
seven colons, with no `::`. Otherwise it has exactly one `::`, which stands
for the first longest run of zero groups: before it are the groups before
the run, and after it either the groups after the run or, for a dotted run,
the last thirty-two bits as a dotted quad (after `ffff:` for a run of five).
The text has a dot exactly when the run is dotted. -/
theorem toText_canonical (a : Ipv6) :
    (¬ HasZeroPair a.words → GroupsText a.words a.toText.toList ∧ a.toText.toList.count ':' = 7 ∧
        ∀ x y, a.toText.toList ≠ x ++ ':' :: ':' :: y) ∧
    (HasZeroPair a.words → ∃ b l, FirstLongestRun a.words b l ∧ ∃ x y, a.toText.toList = x ++ ':' :: ':' :: y ∧
        (∀ x' y', a.toText.toList = x' ++ ':' :: ':' :: y' → x' = x ∧ y' = y) ∧
        GroupsText (a.words.take b) x ∧
        (DottedRun a.words b l → ∃ q, y = (if l = 5 then "ffff:".toList else []) ++ q ∧ Ipv4.Literal q a.lastQuad) ∧
        (¬ DottedRun a.words b l → GroupsText (a.words.drop (b + l)) y)) ∧
    ('.' ∈ a.toText.toList ↔ ∃ b l, FirstLongestRun a.words b l ∧ DottedRun a.words b l) :=
  ⟨toText_of_not_hasZeroPair, toText_of_hasZeroPair, dot_mem_toText_iff a⟩

end CimBroker.Address.Ipv6
