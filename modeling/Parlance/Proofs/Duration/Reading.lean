import Mathlib.Algebra.Order.BigOperators.Group.List
import Parlance.Proofs.Text.Natural
import Parlance.Proofs.ValueType.LetterCase

/-!
# Reading durations exactly

The compact form of a duration is a row of groups, each a number in decimal digits and the
letter of a unit in either case. Reading it adds up the groups, and what is checked on the
way (each amount, each length, each sum) amounts to one bound on the exact total
(`Duration.parse?_exact`).
-/

set_option autoImplicit false

namespace Parlance.Duration

open Text

/-! ## Letters of units -/

theorem Unit.ofLetter?_of_isDecimalDigit {c : Char} (h : isDecimalDigit c = true) :
    Unit.ofLetter? c = none := by
  have hplace := isDecimalDigit_le_or h
  rw [ofLetter?, toLower_of_isDecimalDigit h, List.find?_eq_none]
  intro unit _ hletter
  have hnat : unit.letter.toNat = c.toNat := by rw [eq_of_beq hletter]
  have hrange : 100 ≤ unit.letter.toNat ∧ unit.letter.toNat ≤ 119 := by
    cases unit <;> decide
  omega

/-- A letter stands for a unit if it is the letter of the unit, small or capital. -/
theorem Unit.ofLetter?_eq_some_iff {c : Char} {unit : Unit} :
    Unit.ofLetter? c = some unit ↔ c = unit.letter ∨ c = unit.letter.toUpper := by
  constructor
  · intro h
    have hletter : unit.letter = c.toLower := by simpa using List.find?_some h
    rcases toLower_cases c with ⟨hlow, hhigh, hsmall⟩ | hsame
    · have hnat : unit.letter.toNat = c.toNat + 32 := by rw [hletter, hsmall]
      have hcapital : unit.letter.toUpper.toNat + 32 = unit.letter.toNat := by
        cases unit <;> rfl
      refine .inr (Char.toNat_inj.1 ?_)
      omega
    · exact .inl (hletter.trans hsame).symm
  · rintro (rfl | rfl) <;> cases unit <;> rfl

/-! ## Groups -/

/-- An amount as it is written, with the letter of its unit: what a token may hold several of. -/
structure Group extends Part where
  letter : Char
  nonempty : digits ≠ []
  decimal : ∀ c ∈ digits, isDecimalDigit c = true
  spelled : letter = unit.letter ∨ letter = unit.letter.toUpper

/-- The characters of the group. -/
def Group.chars (group : Group) : List Char :=
  group.digits ++ [group.letter]

/-- The text of groups in a row. -/
def written (groups : List Group) : String :=
  String.ofList (groups.flatMap Group.chars)

/-- The digits are ASCII digits. -/
def Part.IsAscii (part : Part) : Prop :=
  ∀ c ∈ part.digits, c.isDigit = true

/-- The exact length of the part in milliseconds. -/
def Part.milliseconds (part : Part) : Nat :=
  decimalValue part.digits * part.unit.seconds * 1000

/-- The exact length of parts in milliseconds. -/
def total (parts : List Part) : Nat :=
  (parts.map Part.milliseconds).sum

theorem partsFrom_digit {digits cs : List Char} {c : Char} (h : isDecimalDigit c = true) :
    partsFrom digits (c :: cs) = partsFrom (digits ++ [c]) cs := by
  simp [partsFrom, h]

theorem partsFrom_letter {digits cs : List Char} {c : Char} {unit : Unit}
    (hdigits : digits ≠ []) (hunit : Unit.ofLetter? c = some unit) :
    partsFrom digits (c :: cs) = (partsFrom [] cs).map (⟨digits, unit⟩ :: ·) := by
  have hletter : isDecimalDigit c = false := by
    rw [Bool.eq_false_iff]
    intro hdigit
    rw [Unit.ofLetter?_of_isDecimalDigit hdigit] at hunit
    cases hunit
  cases digits with
  | nil => exact absurd rfl hdigits
  | cons d ds => simp [partsFrom, hletter, hunit]

theorem partsFrom_append {digits more : List Char} (hmore : ∀ c ∈ more, isDecimalDigit c = true)
    (cs : List Char) : partsFrom digits (more ++ cs) = partsFrom (digits ++ more) cs := by
  induction more generalizing digits with
  | nil => simp
  | cons c more ih =>
    rw [List.forall_mem_cons] at hmore
    rw [List.cons_append, partsFrom_digit hmore.1, ih hmore.2, List.append_assoc,
      List.singleton_append]

theorem partsFrom_group (group : Group) (cs : List Char) :
    partsFrom [] (group.chars ++ cs) = (partsFrom [] cs).map (group.toPart :: ·) := by
  rw [Group.chars, List.append_assoc, partsFrom_append group.decimal, List.nil_append,
    List.singleton_append,
    partsFrom_letter group.nonempty (Unit.ofLetter?_eq_some_iff.2 group.spelled)]

theorem partsFrom_flatMap (groups : List Group) :
    partsFrom [] (groups.flatMap Group.chars) = some (groups.map Group.toPart) := by
  induction groups with
  | nil => rfl
  | cons group groups ih => rw [List.flatMap_cons, partsFrom_group, ih]; rfl

/-- Whatever is read as parts is written as groups. -/
theorem exists_groups_of_partsFrom {digits cs : List Char} {parts : List Part}
    (hdigits : ∀ c ∈ digits, isDecimalDigit c = true) (h : partsFrom digits cs = some parts) :
    ∃ groups : List Group, digits ++ cs = groups.flatMap Group.chars ∧
      parts = groups.map Group.toPart := by
  induction cs generalizing digits parts with
  | nil =>
    unfold partsFrom at h
    split at h
    · next hnil =>
      obtain rfl := Option.some.inj h
      exact ⟨[], by simpa using hnil, rfl⟩
    · cases h
  | cons c cs ih =>
    unfold partsFrom at h
    split at h
    · next hdigit =>
      have hmore : ∀ d ∈ digits ++ [c], isDecimalDigit d = true := by
        simpa [or_imp, forall_and] using ⟨hdigits, hdigit⟩
      obtain ⟨groups, hgroups, hparts⟩ := ih hmore h
      exact ⟨groups, by rw [← hgroups, List.append_assoc, List.singleton_append], hparts⟩
    · split at h
      · next first rest unit hunit =>
        obtain ⟨later, hlater, rfl⟩ := Option.map_eq_some_iff.1 h
        obtain ⟨groups, hgroups, rfl⟩ := ih (List.forall_mem_nil _) hlater
        have hspelled := Unit.ofLetter?_eq_some_iff.1 hunit
        refine ⟨⟨⟨_, unit⟩, c, List.cons_ne_nil first rest, hdigits, hspelled⟩ :: groups, ?_, rfl⟩
        rw [List.flatMap_cons, ← hgroups, Group.chars]
        simp
      · cases h

/-- The parts of a token are those of the groups that it is written in. -/
theorem parts?_eq_some_iff {token : String} {parts : List Part} : parts? token = some parts ↔
    ∃ groups : List Group, groups ≠ [] ∧ token = written groups ∧
      parts = groups.map Group.toPart := by
  rw [parts?, Option.filter_eq_some_iff]
  constructor
  · rintro ⟨hparts, hnonempty⟩
    obtain ⟨groups, hgroups, rfl⟩ := exists_groups_of_partsFrom (List.forall_mem_nil _) hparts
    refine ⟨groups, by simpa using hnonempty, ?_, rfl⟩
    rw [written, ← hgroups, List.nil_append, String.ofList_toList]
  · rintro ⟨groups, hnonempty, rfl, rfl⟩
    refine ⟨?_, by simpa using hnonempty⟩
    rw [written, String.toList_ofList, partsFrom_flatMap]

theorem hasShape_iff {token : String} :
    hasShape token = true ↔ ∃ groups : List Group, groups ≠ [] ∧ token = written groups := by
  rw [hasShape, Option.isSome_iff_exists]
  simp only [parts?_eq_some_iff]
  constructor
  · rintro ⟨parts, groups, hnonempty, htoken, -⟩
    exact ⟨groups, hnonempty, htoken⟩
  · rintro ⟨groups, hnonempty, htoken⟩
    exact ⟨groups.map Group.toPart, groups, hnonempty, htoken, rfl⟩

/-! ## Sums -/

theorem within?_eq_some_iff {n k : Nat} : within? n = some k ↔ n ≤ limit ∧ k = n := by
  simp [within?, eq_comm (a := k)]

theorem Unit.seconds_pos (unit : Unit) : 0 < unit.seconds := by
  cases unit <;> decide

/-- An amount is not greater than its length, so the bound on the length is all that is
asked of both. -/
theorem Part.decimalValue_le_milliseconds (part : Part) :
    decimalValue part.digits ≤ part.milliseconds := by
  rw [milliseconds, Nat.mul_assoc]
  exact Nat.le_mul_of_pos_right _ (Nat.mul_pos part.unit.seconds_pos (by decide))

theorem Part.milliseconds?_eq_some_iff {part : Part} (hdigits : part.digits ≠ []) {n : Nat} :
    part.milliseconds? = some n ↔
      part.IsAscii ∧ part.milliseconds ≤ limit ∧ n = part.milliseconds := by
  have hle := part.decimalValue_le_milliseconds
  rw [milliseconds?, Option.bind_eq_bind, Option.bind_eq_some_iff]
  constructor
  · rintro ⟨amount, hamount, h⟩
    obtain ⟨bounded, hbounded, hlength⟩ := Option.bind_eq_some_iff.1 h
    obtain ⟨-, hascii, rfl⟩ := natural?_eq_some_iff.1 hamount
    obtain ⟨-, rfl⟩ := within?_eq_some_iff.1 hbounded
    exact ⟨hascii, within?_eq_some_iff.1 hlength⟩
  · rintro ⟨hascii, hlength, rfl⟩
    refine ⟨_, natural?_eq_some_iff.2 ⟨hdigits, hascii, rfl⟩, Option.bind_eq_some_iff.2 ?_⟩
    exact ⟨_, within?_eq_some_iff.2 ⟨hle.trans hlength, rfl⟩,
      within?_eq_some_iff.2 ⟨hlength, rfl⟩⟩

theorem total_cons (part : Part) (parts : List Part) :
    total (part :: parts) = part.milliseconds + total parts := by
  rw [total, List.map_cons, List.sum_cons, ← total]

theorem total_append (parts others : List Part) :
    total (parts ++ others) = total parts + total others := by
  rw [total, List.map_append, List.sum_append, ← total, ← total]

/-- Adding up parts with a check at each step is adding them up exactly, with one check of
the total. -/
theorem sumFrom_eq_some_iff {parts : List Part} (hdigits : ∀ part ∈ parts, part.digits ≠ [])
    {start n : Nat} (hstart : start ≤ limit) : sumFrom start parts = some n ↔
      (∀ part ∈ parts, part.IsAscii) ∧ start + total parts ≤ limit ∧ n = start + total parts := by
  induction parts generalizing start with
  | nil => simp [sumFrom, total, hstart, eq_comm (a := n)]
  | cons part parts ih =>
    rw [List.forall_mem_cons] at hdigits
    rw [sumFrom, Option.bind_eq_bind, Option.bind_eq_some_iff, List.forall_mem_cons, total_cons,
      ← Nat.add_assoc]
    constructor
    · rintro ⟨length, hlength, h⟩
      obtain ⟨sum, hsum, h⟩ := Option.bind_eq_some_iff.1 h
      obtain ⟨hascii, -, rfl⟩ := (Part.milliseconds?_eq_some_iff hdigits.1).1 hlength
      obtain ⟨hwithin, rfl⟩ := within?_eq_some_iff.1 hsum
      obtain ⟨hrest, htotal⟩ := (ih hdigits.2 hwithin).1 h
      exact ⟨⟨hascii, hrest⟩, htotal⟩
    · rintro ⟨⟨hascii, hrest⟩, htotal⟩
      have hsum : start + part.milliseconds ≤ limit := (Nat.le_add_right _ _).trans htotal.1
      have hlength : part.milliseconds ≤ limit := (Nat.le_add_left _ _).trans hsum
      refine ⟨_, (Part.milliseconds?_eq_some_iff hdigits.1).2 ⟨hascii, hlength, rfl⟩, ?_⟩
      refine Option.bind_eq_some_iff.2 ⟨_, within?_eq_some_iff.2 ⟨hsum, rfl⟩, ?_⟩
      exact (ih hdigits.2 hsum).2 ⟨hrest, htotal⟩

/-! ## Tokens -/

theorem digits_ne_nil_of_parts? {token : String} {parts : List Part}
    (h : parts? token = some parts) : ∀ part ∈ parts, part.digits ≠ [] := by
  obtain ⟨groups, -, -, rfl⟩ := parts?_eq_some_iff.1 h
  intro part hpart
  obtain ⟨group, -, rfl⟩ := List.mem_map.1 hpart
  exact group.nonempty

/-- A token of the shape of a duration is read exactly if all its digits are ASCII digits
and its total is within the limit, and then as that total. -/
theorem parse?_eq_some_iff_of_parts? {token : String} {parts : List Part}
    (h : parts? token = some parts) {d : Duration} : parse? token = some d ↔
      (∀ part ∈ parts, part.IsAscii) ∧ total parts ≤ limit ∧ d.milliseconds = total parts := by
  obtain ⟨milliseconds⟩ := d
  have hsum : ∀ n, sumFrom 0 parts = some n ↔
      (∀ part ∈ parts, part.IsAscii) ∧ total parts ≤ limit ∧ n = total parts := by
    intro n
    rw [sumFrom_eq_some_iff (digits_ne_nil_of_parts? h) (Nat.zero_le limit), Nat.zero_add]
  simp only [parse?, h, Option.bind_eq_bind, Option.bind_some, Option.pure_def,
    Option.bind_eq_some_iff, hsum, Option.some_inj, Duration.mk.injEq]
  constructor
  · rintro ⟨n, ⟨hascii, hwithin, rfl⟩, rfl⟩
    exact ⟨hascii, hwithin, rfl⟩
  · rintro ⟨hascii, hwithin, rfl⟩
    exact ⟨_, ⟨hascii, hwithin, rfl⟩, rfl⟩

/-- Tokens of the same parts in any order are read alike. -/
theorem parse?_eq_of_perm {token other : String} {parts others : List Part}
    (hparts : parts? token = some parts) (hothers : parts? other = some others)
    (hperm : parts.Perm others) : parse? token = parse? other := by
  have htotal : total parts = total others := (hperm.map Part.milliseconds).sum_eq
  have hascii : (∀ part ∈ parts, part.IsAscii) ↔ ∀ part ∈ others, part.IsAscii := by
    simp only [hperm.mem_iff]
  apply Option.ext
  intro d
  rw [parse?_eq_some_iff_of_parts? hparts, parse?_eq_some_iff_of_parts? hothers, htotal, hascii]

theorem parts?_append {token other : String} {parts others : List Part}
    (hparts : parts? token = some parts) (hothers : parts? other = some others) :
    parts? (token ++ other) = some (parts ++ others) := by
  obtain ⟨groups, hnonempty, rfl, rfl⟩ := parts?_eq_some_iff.1 hparts
  obtain ⟨more, -, rfl, rfl⟩ := parts?_eq_some_iff.1 hothers
  refine parts?_eq_some_iff.2 ⟨groups ++ more, by simp [hnonempty], ?_, List.map_append.symm⟩
  rw [written, written, written, List.flatMap_append, String.ofList_append]

/-- Durations in a row are read exactly if each of them is and their sum is within the
limit, and then as the sum. -/
theorem parse?_append_eq_some_iff {token other : String} (htoken : hasShape token = true)
    (hother : hasShape other = true) {d : Duration} : parse? (token ++ other) = some d ↔
      ∃ a b, parse? token = some a ∧ parse? other = some b ∧
        a.milliseconds + b.milliseconds ≤ limit ∧
        d.milliseconds = a.milliseconds + b.milliseconds := by
  obtain ⟨parts, hparts⟩ := Option.isSome_iff_exists.1 htoken
  obtain ⟨others, hothers⟩ := Option.isSome_iff_exists.1 hother
  rw [parse?_eq_some_iff_of_parts? (parts?_append hparts hothers), List.forall_mem_append,
    total_append]
  simp only [parse?_eq_some_iff_of_parts? hparts, parse?_eq_some_iff_of_parts? hothers]
  constructor
  · rintro ⟨⟨hascii, hasciiOther⟩, hwithin, hsum⟩
    exact ⟨⟨total parts⟩, ⟨total others⟩, ⟨hascii, by omega, rfl⟩,
      ⟨hasciiOther, by omega, rfl⟩, Int.ofNat_le.2 hwithin, hsum⟩
  · rintro ⟨a, b, ⟨hascii, -, ha⟩, ⟨hasciiOther, -, hb⟩, hwithin, hsum⟩
    rw [ha, hb] at hwithin hsum
    exact ⟨⟨hascii, hasciiOther⟩, by exact_mod_cast hwithin, by exact_mod_cast hsum⟩

/-- Durations are read by exact addition. A token is read exactly if it is written in one
or more groups of ASCII digits, each amount below `2 ^ 63`, with an exact total of at most
`2 ^ 63 - 1` milliseconds, and then as that total. So durations in a row are read as their
sum, if that is not too long, and neither the order of groups nor the case of letters
counts. -/
theorem parse?_exact :
    (∀ (token : String) (d : Duration), parse? token = some d ↔
      ∃ groups : List Group, groups ≠ [] ∧ token = written groups ∧
        (∀ group ∈ groups, (∀ c ∈ group.digits, c.isDigit = true) ∧
          decimalValue group.digits < 2 ^ 63) ∧
        total (groups.map Group.toPart) ≤ 2 ^ 63 - 1 ∧
        d.milliseconds = total (groups.map Group.toPart)) ∧
    (∀ token other : String, hasShape token = true → hasShape other = true →
      ∀ d : Duration, parse? (token ++ other) = some d ↔
        ∃ a b, parse? token = some a ∧ parse? other = some b ∧
          a.milliseconds + b.milliseconds ≤ 2 ^ 63 - 1 ∧
          d.milliseconds = a.milliseconds + b.milliseconds) ∧
    ∀ groups others : List Group,
      (groups.map Group.toPart).Perm (others.map Group.toPart) →
        parse? (written groups) = parse? (written others) := by
  have hlimit : limit = 2 ^ 63 - 1 := rfl
  refine ⟨?groups, ?append, ?reordered⟩
  case groups =>
    intro token d
    constructor
    · intro h
      obtain ⟨parts, hparts, -⟩ := Option.bind_eq_some_iff.1 h
      obtain ⟨groups, hnonempty, rfl, rfl⟩ := parts?_eq_some_iff.1 hparts
      obtain ⟨hascii, hwithin, hd⟩ := (parse?_eq_some_iff_of_parts? hparts).1 h
      refine ⟨groups, hnonempty, rfl, ?_, hlimit ▸ hwithin, hd⟩
      intro group hgroup
      have hpart := List.mem_map_of_mem (f := Group.toPart) hgroup
      have hle : group.milliseconds ≤ total (groups.map Group.toPart) :=
        List.le_sum_of_mem (List.mem_map_of_mem hpart)
      have hamount := group.decimalValue_le_milliseconds
      exact ⟨hascii _ hpart, by omega⟩
    · rintro ⟨groups, hnonempty, rfl, hgroups, hwithin, hd⟩
      have hparts : parts? (written groups) = some (groups.map Group.toPart) :=
        parts?_eq_some_iff.2 ⟨groups, hnonempty, rfl, rfl⟩
      refine (parse?_eq_some_iff_of_parts? hparts).2 ⟨?_, hlimit ▸ hwithin, hd⟩
      rw [List.forall_mem_map]
      exact fun group hgroup => (hgroups group hgroup).1
  case append =>
    intro token other htoken hother d
    rw [parse?_append_eq_some_iff htoken hother, hlimit]
    rfl
  case reordered =>
    intro groups others hperm
    by_cases hnonempty : groups = []
    · obtain rfl : others = [] := by simpa [hnonempty] using hperm
      rw [hnonempty]
    · have hother : others ≠ [] := by
        rintro rfl
        exact hnonempty (by simpa using hperm)
      exact parse?_eq_of_perm (parts?_eq_some_iff.2 ⟨groups, hnonempty, rfl, rfl⟩)
        (parts?_eq_some_iff.2 ⟨others, hother, rfl, rfl⟩) hperm

/-- The whole hours of the longest duration. -/
def longestHours : Group where
  digits := "2562047788015".toList
  unit := .hour
  letter := 'h'
  nonempty := by decide
  decimal := List.all_eq_true.1 rfl
  spelled := .inl rfl

/-- Twelve minutes, with a capital letter. -/
def twelveMinutes : Group where
  digits := "12".toList
  unit := .minute
  letter := 'M'
  nonempty := by decide
  decimal := List.all_eq_true.1 rfl
  spelled := .inr rfl

/-- Up to the last second the longest duration is read, in any order and letter case of its
groups; a second more is too long. -/
theorem parse?_exact_longest :
    written [longestHours, twelveMinutes] = "2562047788015h12M" ∧
    parse? "2562047788015h12M55s" = some ⟨9223372036854775000⟩ ∧
    parse? "12m2562047788015H" = parse? "2562047788015h12M" ∧
    parse? "2562047788015h12M56s" = none := by
  obtain ⟨hgroups, happend, hreordered⟩ := parse?_exact
  have hwritten : written [longestHours, twelveMinutes] = "2562047788015h12M" := rfl
  have hamounts : ∀ group ∈ [longestHours, twelveMinutes],
      (∀ c ∈ group.digits, c.isDigit = true) ∧ decimalValue group.digits < 2 ^ 63 := by
    rw [List.forall_mem_cons, List.forall_mem_singleton]
    exact ⟨⟨List.all_eq_true.1 rfl, by decide⟩, List.all_eq_true.1 rfl, by decide⟩
  have hparse : parse? "2562047788015h12M" = some ⟨9223372036854720000⟩ :=
    (hgroups _ _).2 ⟨[longestHours, twelveMinutes], List.cons_ne_nil _ _, hwritten.symm, hamounts,
      by decide, rfl⟩
  have hshape : hasShape "2562047788015h12M" = true := rfl
  refine ⟨hwritten, ?_, ?_, ?_⟩
  · exact (happend "2562047788015h12M" "55s" hshape rfl _).2
      ⟨_, _, hparse, rfl, by decide, rfl⟩
  · exact hreordered
      [{ twelveMinutes with letter := 'm', spelled := .inl rfl },
        { longestHours with letter := 'H', spelled := .inr rfl }]
      [longestHours, twelveMinutes] (.swap _ _ _)
  · rw [Option.eq_none_iff_forall_ne_some]
    intro d h
    obtain ⟨a, b, ha, hb, hwithin, -⟩ := (happend "2562047788015h12M" "56s" hshape rfl d).1 h
    obtain rfl := Option.some.inj (hparse.symm.trans ha)
    obtain rfl := Option.some.inj (hb.symm.trans rfl)
    exact absurd hwithin (by decide)

end Parlance.Duration
