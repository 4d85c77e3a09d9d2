import Mathlib.Algebra.BigOperators.Ring.List
import Parlance.Proofs.Duration.Reading

/-!
# Writing durations

The compact form that is written for a duration is a row of groups, the greatest unit
first, whose total is the duration in whole seconds. So reading takes back what was
written, less what is smaller than a second, and refuses what was written with a minus
(`Duration.parse?_format_eq_some_iff`); of all tokens for a duration the one that is
written stands for them (`Duration.format_canonical`).
-/

set_option autoImplicit false

namespace Parlance.Duration

open Text

/-! ## Amounts and units -/

/-- The group that writes an amount of a unit. -/
def Group.ofAmount (amount : Nat) (unit : Unit) : Group where
  digits := Nat.toDigits 10 amount
  unit := unit
  letter := unit.letter
  nonempty := Nat.toDigits_ne_nil
  decimal := fun _ hc =>
    isDecimalDigit_of_isDigit (Nat.isDigit_of_mem_toDigits (by decide) (by decide) hc)
  spelled := .inl rfl

theorem written_ofAmount (amount : Nat) (unit : Unit) (groups : List Group) :
    written (.ofAmount amount unit :: groups) =
      toString amount ++ unit.letter.toString ++ written groups := by
  rw [written, List.flatMap_cons, String.ofList_append, ← written, Group.chars,
    String.ofList_append, Nat.toString_eq_ofList_toDigits]
  rfl

theorem milliseconds_ofAmount (amount : Nat) (unit : Unit) :
    (Group.ofAmount amount unit).milliseconds = amount * unit.seconds * 1000 := by
  rw [Part.milliseconds, Group.ofAmount, decimalValue_toDigits]

theorem isAscii_ofAmount (amount : Nat) (unit : Unit) : (Group.ofAmount amount unit).IsAscii :=
  fun _ hc => Nat.isDigit_of_mem_toDigits (by decide) (by decide) hc

/-! ## Whole seconds in groups -/

/-- The groups that write whole seconds in the units, each with as much as it can hold of
what is left to it; a unit that holds nothing has no group. -/
def groupsOf (seconds : Nat) : List Unit → List Group
  | [] => []
  | unit :: units =>
    if unit.seconds ≤ seconds then
      .ofAmount (seconds / unit.seconds) unit :: groupsOf (seconds % unit.seconds) units
    else groupsOf seconds units

variable {seconds : Nat} {units : List Unit}

theorem write_eq_written (seconds : Nat) (units : List Unit) :
    write seconds units = written (groupsOf seconds units) := by
  induction units generalizing seconds with
  | nil => rfl
  | cons unit units ih =>
    unfold write groupsOf
    split
    · rw [written_ofAmount, ih]
    · exact ih seconds

theorem isAscii_groupsOf (seconds : Nat) (units : List Unit) :
    ∀ part ∈ (groupsOf seconds units).map Group.toPart, part.IsAscii := by
  induction units generalizing seconds with
  | nil => exact List.forall_mem_nil _
  | cons unit units ih =>
    unfold groupsOf
    split
    · exact List.forall_mem_cons.2 ⟨isAscii_ofAmount _ unit, ih _⟩
    · exact ih seconds

/-- With the second among the units nothing is left over. -/
theorem total_groupsOf (h : .second ∈ units ∨ seconds = 0) :
    total ((groupsOf seconds units).map Group.toPart) = seconds * 1000 := by
  induction units generalizing seconds with
  | nil =>
    obtain rfl : seconds = 0 := h.resolve_left List.not_mem_nil
    rfl
  | cons unit units ih =>
    have hpos := unit.seconds_pos
    unfold groupsOf
    split
    · have hleft : .second ∈ units ∨ seconds % unit.seconds = 0 := by
        rcases h with h | rfl
        · rcases List.mem_cons.1 h with rfl | h
          · exact .inr (Nat.mod_one seconds)
          · exact .inl h
        · exact .inr (Nat.zero_mod _)
      rw [List.map_cons, total_cons, milliseconds_ofAmount, ih hleft, ← Nat.add_mul,
        Nat.div_add_mod']
    · next hless =>
      refine ih ?_
      rcases h with h | h
      · rcases List.mem_cons.1 h with rfl | h
        · exact .inr (Nat.lt_one_iff.1 (Nat.not_le.1 hless))
        · exact .inl h
      · exact .inr h

/-- Seconds that are written are read back, as long as they are not too many. -/
theorem parse?_write_eq_some_iff (hunits : .second ∈ units) (hpos : 0 < seconds) {d : Duration} :
    parse? (write seconds units) = some d ↔
      seconds * 1000 ≤ limit ∧ d.milliseconds = (seconds * 1000 : Nat) := by
  have htotal : total ((groupsOf seconds units).map Group.toPart) = seconds * 1000 :=
    total_groupsOf (.inl hunits)
  have hnonempty : groupsOf seconds units ≠ [] := by
    intro hnil
    rw [hnil] at htotal
    have hzero : 0 = seconds * 1000 := htotal
    omega
  have hparts : parts? (write seconds units) = some ((groupsOf seconds units).map Group.toPart) :=
    parts?_eq_some_iff.2 ⟨_, hnonempty, write_eq_written seconds units, rfl⟩
  rw [parse?_eq_some_iff_of_parts? hparts, htotal, and_iff_right (isAscii_groupsOf seconds units)]

/-! ## Durations -/

/-- The duration without what is smaller than a second. -/
def wholeSeconds (d : Duration) : Duration :=
  ⟨d.milliseconds.tdiv 1000 * 1000⟩

/-- The duration of a number of nanoseconds, without what is smaller than a millisecond. -/
def ofNanoseconds (n : Int) : Duration :=
  ⟨n.tdiv 1000000⟩

theorem tdiv_cases (n k : Int) :
    (0 ≤ n ∧ n.tdiv k = n / k) ∨ (n < 0 ∧ n.tdiv k = -(-n / k)) := by
  by_cases hn : 0 ≤ n
  · exact .inl ⟨hn, Int.tdiv_eq_ediv_of_nonneg hn⟩
  · refine .inr ⟨Int.not_le.1 hn, ?_⟩
    rw [← Int.tdiv_eq_ediv_of_nonneg (by omega), Int.neg_tdiv, Int.neg_neg]

/-- A minus begins no duration. -/
theorem parse?_minus (text : String) : parse? ("-" ++ text) = none := by
  have hparts : parts? ("-" ++ text) = none := by
    rw [parts?, String.toList_append]
    rfl
  rw [parse?, hparts]
  rfl

/-- What is written for a duration is read as the duration in whole seconds, unless that
has a minus or is too long. -/
theorem parse?_format_eq_some_iff {d e : Duration} : parse? d.format = some e ↔
    -1000 < d.milliseconds ∧ d.wholeSeconds.milliseconds ≤ limit ∧ e = d.wholeSeconds := by
  obtain ⟨read⟩ := e
  have hcases := tdiv_cases d.milliseconds 1000
  simp only [wholeSeconds, format, Duration.mk.injEq]
  generalize d.milliseconds.tdiv 1000 = seconds at hcases
  rcases Int.lt_trichotomy seconds 0 with hneg | rfl | hpos
  · have hminus : ¬ -1000 < d.milliseconds := by omega
    rw [if_neg (Int.ne_of_lt hneg), if_pos hneg, parse?_minus]
    simp [hminus]
  · have hbounds : -1000 < d.milliseconds := by omega
    have hzero : parse? "0s" = some ⟨0⟩ := rfl
    rw [if_pos rfl, hzero]
    simp [hbounds, eq_comm (a := read)]
  · have hbounds : -1000 < d.milliseconds := by omega
    obtain ⟨amount, rfl⟩ := Int.eq_ofNat_of_zero_le (Int.le_of_lt hpos)
    have hamount : 0 < amount := Int.natCast_pos.1 hpos
    have hunits : Unit.second ∈ [.week, .day, .hour, .minute, Unit.second] := by decide
    rw [if_neg (Int.ne_of_gt hpos), if_neg (Int.not_lt.2 (Int.le_of_lt hpos)), String.empty_append,
      Int.natAbs_natCast, parse?_write_eq_some_iff hunits hamount]
    have hcast : ((amount * 1000 : Nat) : Int) = (amount : Int) * 1000 :=
      Int.natCast_mul amount 1000
    rw [and_iff_right hbounds, ← hcast, Int.ofNat_le]

/-- Groups come to whole seconds. -/
theorem dvd_total (parts : List Part) : 1000 ∣ total parts := by
  refine List.dvd_sum ?_
  rw [List.forall_mem_map]
  intro part _
  exact Nat.dvd_mul_left 1000 _

/-- A duration that was read is one of whole seconds, and not too long. -/
theorem wholeSeconds_of_parse? {token : String} {d : Duration} (h : parse? token = some d) :
    -1000 < d.milliseconds ∧ d.milliseconds ≤ limit ∧ d.wholeSeconds = d := by
  obtain ⟨parts, hparts, -⟩ := Option.bind_eq_some_iff.1 h
  obtain ⟨-, hwithin, hd⟩ := (parse?_eq_some_iff_of_parts? hparts).1 h
  have hwhole : 1000 ∣ d.milliseconds := hd ▸ Int.natCast_dvd_natCast.2 (dvd_total parts)
  refine ⟨by omega, by omega, ?_⟩
  rw [wholeSeconds, Int.tdiv_mul_cancel hwhole]

/-- Reading takes back what is written for a duration that was read. -/
theorem parse?_format_of_parse? {token : String} {d : Duration} (h : parse? token = some d) :
    parse? d.format = some d := by
  obtain ⟨hbounds, hwithin, hwhole⟩ := wholeSeconds_of_parse? h
  rw [parse?_format_eq_some_iff, hwhole]
  exact ⟨hbounds, hwithin, rfl⟩

/-- Cutting a duration off at the millisecond makes no difference to its whole seconds. -/
theorem ofNanoseconds_bounds (n : Int) :
    (-1000 < (ofNanoseconds n).milliseconds ↔ -1000000000 < n) ∧
      (ofNanoseconds n).wholeSeconds = ⟨n.tdiv 1000000000 * 1000⟩ := by
  have hmilliseconds := tdiv_cases n 1000000
  have hseconds := tdiv_cases n 1000000000
  have hcut := tdiv_cases (n.tdiv 1000000) 1000
  rw [wholeSeconds, ofNanoseconds, Duration.mk.injEq]
  dsimp only
  omega

/-- Writing a duration and reading it back cuts it off at the second, towards zero; only a
duration of a second or more in the negative is not read back. So it is for the longest
durations too, and for those that are told to the nanosecond. What was read once is
written in a form that reads as the same and is written for it again: the form stands for
all tokens of the duration, and for no others. -/
theorem format_canonical :
    (∀ d : Duration, d.milliseconds ≤ 2 ^ 63 - 1 →
      (-1000 < d.milliseconds → parse? d.format = some d.wholeSeconds) ∧
      (d.milliseconds ≤ -1000 → parse? d.format = none)) ∧
    (∀ n : Int, n ≤ (2 ^ 63 - 1) * 1000000 →
      (-1000000000 < n →
        parse? (ofNanoseconds n).format = some ⟨n.tdiv 1000000000 * 1000⟩) ∧
      (n ≤ -1000000000 → parse? (ofNanoseconds n).format = none)) ∧
    ∀ (token : String) (d : Duration), parse? token = some d →
      parse? d.format = some d ∧
      (∀ again, parse? d.format = some again → again.format = d.format) ∧
      ∀ (other : String) (e : Duration), parse? other = some e → (e.format = d.format ↔ e = d) := by
  have hlimit : (limit : Int) = 2 ^ 63 - 1 := rfl
  have hread : ∀ d : Duration, d.milliseconds ≤ 2 ^ 63 - 1 →
      (-1000 < d.milliseconds → parse? d.format = some d.wholeSeconds) ∧
      (d.milliseconds ≤ -1000 → parse? d.format = none) := by
    intro d hd
    have hcases := tdiv_cases d.milliseconds 1000
    constructor
    · intro hbounds
      refine parse?_format_eq_some_iff.2 ⟨hbounds, ?_, rfl⟩
      rw [wholeSeconds, hlimit]
      dsimp only
      omega
    · intro hminus
      rw [Option.eq_none_iff_forall_ne_some]
      intro e he
      exact absurd (parse?_format_eq_some_iff.1 he).1 (Int.not_lt.2 hminus)
  refine ⟨hread, ?nanoseconds, ?again⟩
  case nanoseconds =>
    intro n hn
    obtain ⟨hbounds, hwhole⟩ := ofNanoseconds_bounds n
    have hcases := tdiv_cases n 1000000
    have hmilliseconds : (ofNanoseconds n).milliseconds ≤ 2 ^ 63 - 1 := by
      rw [ofNanoseconds]
      dsimp only
      omega
    rw [← hbounds, ← hwhole, ← Int.not_lt, ← hbounds, Int.not_lt]
    exact hread (ofNanoseconds n) hmilliseconds
  case again =>
    intro token d h
    have hback := parse?_format_of_parse? h
    refine ⟨hback, ?_, ?_⟩
    · intro again hagain
      rw [Option.some.inj (hagain.symm.trans hback)]
    · intro other e hother
      constructor
      · intro hsame
        have hbackOther := parse?_format_of_parse? hother
        rw [hsame, hback] at hbackOther
        exact (Option.some.inj hbackOther).symm
      · intro hsame
        rw [hsame]

/-- The fraction of a second is cut off, up to the longest duration; a nanosecond more than
minus one second is no time at all, and minus one second is not read; ninety minutes are
written as one hour and thirty minutes. -/
theorem format_canonical_cutting :
    format ⟨788645999⟩ = "1w2d3h4m5s" ∧ parse? (format ⟨788645999⟩) = some ⟨788645000⟩ ∧
    format ⟨2 ^ 63 - 1⟩ = "15250284452w3d7h12m55s" ∧
    parse? (format ⟨2 ^ 63 - 1⟩) = some ⟨9223372036854775000⟩ ∧
    parse? (ofNanoseconds (-999999999)).format = some ⟨0⟩ ∧
    format ⟨-1000⟩ = "-1s" ∧ parse? (format ⟨-1000⟩) = none ∧
    parse? "90M" = some ⟨5400000⟩ ∧ format ⟨5400000⟩ = "1h30m" ∧
    parse? (format ⟨5400000⟩) = some ⟨5400000⟩ := by
  obtain ⟨hread, hnanoseconds, hagain⟩ := format_canonical
  refine ⟨rfl, ?_, rfl, ?_, ?_, rfl, ?_, rfl, rfl, ?_⟩
  · exact (hread ⟨788645999⟩ (by decide)).1 (by decide)
  · exact (hread ⟨2 ^ 63 - 1⟩ (by decide)).1 (by decide)
  · exact (hnanoseconds (-999999999) (by decide)).1 (by decide)
  · exact (hread ⟨-1000⟩ (by decide)).2 (by decide)
  · exact (hagain "90M" ⟨5400000⟩ rfl).1

end Parlance.Duration
