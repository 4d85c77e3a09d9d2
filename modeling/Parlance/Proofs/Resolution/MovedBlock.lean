import Parlance.Proofs.Resolution.Reading
import Parlance.Selection

/-!
# Moving a flag with its value

A flag in effect, with its value if it takes one, may stand in any place where no other flag
waits for a value, as far as one usage is concerned: whether the usage matches, and what it
resolves to or fails with, stays the same (`Matcher.alike_of_moved_block`). Only behind another
occurrence of its own name would it count in that one's stead.
-/

set_option autoImplicit false

namespace Parlance

namespace Matcher

variable {Act : Type} {m : Matcher} {source : Source} {node : Node Act} {usage : Usage Act}

/-- A usage that leaves the same positional tokens of two token lists is tried on both with
the same outcome. -/
theorem tryUsage_congr {tokens other : List String}
    (h : (TokenSplit.ofTokens (node.flagsFor usage) tokens).positional =
      (TokenSplit.ofTokens (node.flagsFor usage) other).positional) :
    m.tryUsage node tokens usage = m.tryUsage node other usage := by
  simp only [tryUsage, h]

/-- Let no flag of a usage wait for its value behind `xs` or behind `xs` and `ys`, and let
`ys` hold no occurrence of a flag named like that of a block. Then the usage is tried, and
resolves to arguments or an error, the same with the block in front of `ys` and behind. -/
theorem alike_of_moved_block {flag : Flag} {xs ys block : List String}
    (hblock : TokenSplit.IsBlock (node.flagsFor usage) flag block)
    (hfront : TokenSplit.waits (node.flagsFor usage) xs = false)
    (hback : TokenSplit.waits (node.flagsFor usage) (xs ++ ys) = false)
    (hapart : ∀ hit ∈ (TokenSplit.ofTokens (node.flagsFor usage) ys).hits,
      hit.flag.name ≠ flag.name) (zs : List String) :
    m.tryUsage node (xs ++ block ++ ys ++ zs) usage =
      m.tryUsage node (xs ++ ys ++ block ++ zs) usage ∧
    ∀ trailing, m.resolve source node usage (xs ++ block ++ ys ++ zs) trailing =
      m.resolve source node usage (xs ++ ys ++ block ++ zs) trailing := by
  have hreads := hblock.readsAs hfront hback hapart zs
  exact ⟨tryUsage_congr hreads.positional, fun trailing => resolve_congr hreads trailing⟩

/-- A message that is sent after some time, perhaps silently. -/
def reminder : Usage Unit := .ofParameters [
  { name := "player", kind := .required .word },
  { name := "after", kind := .flag ["a"] (some .duration) none },
  { name := "silent", kind := .flag ["s"] none none },
  { name := "text", kind := .greedy none }]

/-- A command that sends such messages. -/
def reminding : Command Unit where
  name := "remind"
  usages := [reminder]

/-- The time may stand in front of a switch and a word or behind them: the usage matches and
the time is stored under its name either way, and a word that is no time is the same error. -/
theorem alike_of_moved_block_reminding :
    let node := reminding.link
    let usage := reminder.behind []
    (tryUsage {} node ["ann", "-a", "1m30S", "-s", "feed", "cats"] usage).found = some usage ∧
    (tryUsage {} node ["ann", "-s", "feed", "-a", "1m30S", "cats"] usage).found = some usage ∧
    (∃ arguments : Arguments,
      resolve {} .console node usage ["ann", "-a", "1m30S", "-s", "feed", "cats"] .reject =
        .ok arguments ∧
      resolve {} .console node usage ["ann", "-s", "feed", "-a", "1m30S", "cats"] .reject =
        .ok arguments ∧
      arguments.entries = [("after", .duration ⟨90000⟩), ("player", .text "ann"),
        ("silent", .bool true), ("text", .text "feed cats")]) ∧
    resolve {} .console node usage ["ann", "-a", "soon", "-s", "feed", "cats"] .reject =
      .error (.typeConversion "after" "soon" "duration") ∧
    ∃ (flag : Flag), TokenSplit.IsBlock (node.flagsFor usage) flag ["-a", "soon"] ∧
      TokenSplit.waits (node.flagsFor usage) ["ann"] = false ∧
      TokenSplit.waits (node.flagsFor usage) ["ann", "-s", "feed"] = false ∧
      (∀ hit ∈ (TokenSplit.ofTokens (node.flagsFor usage) ["-s", "feed"]).hits,
        hit.flag.name ≠ flag.name) := by
  intro node usage
  have hfront : TokenSplit.waits (node.flagsFor usage) ["ann"] = false := rfl
  have hback : TokenSplit.waits (node.flagsFor usage) (["ann"] ++ ["-s", "feed"]) = false := rfl
  obtain ⟨flag, hflag, hvalued, hname⟩ : ∃ flag,
      matchFlag? (node.flagsFor usage) "-a" = some flag ∧ flag.isSwitch = false ∧
        flag.name = "after" :=
    ⟨_, rfl, rfl, rfl⟩
  have hblock : ∀ value, matchFlag? (node.flagsFor usage) value = none →
      TokenSplit.IsBlock (node.flagsFor usage) flag ["-a", value] :=
    fun value hvalue => .valued hflag hvalued hvalue
  have hapart : ∀ hit ∈ (TokenSplit.ofTokens (node.flagsFor usage) ["-s", "feed"]).hits,
      hit.flag.name ≠ flag.name := by
    rw [hname]
    decide
  have hmoved : ∀ value, matchFlag? (node.flagsFor usage) value = none →
      tryUsage {} node ["ann", "-a", value, "-s", "feed", "cats"] usage =
          tryUsage {} node ["ann", "-s", "feed", "-a", value, "cats"] usage ∧
        ∀ trailing,
          resolve {} .console node usage ["ann", "-a", value, "-s", "feed", "cats"] trailing =
            resolve {} .console node usage ["ann", "-s", "feed", "-a", value, "cats"] trailing :=
    fun value hvalue => alike_of_moved_block (hblock value hvalue) hfront hback hapart ["cats"]
  obtain ⟨htried, hresolved⟩ := hmoved "1m30S" rfl
  have hmatches : (tryUsage {} node ["ann", "-s", "feed", "-a", "1m30S", "cats"] usage).found =
      some usage := rfl
  refine ⟨?front, hmatches, ?time, ?noTime, flag, hblock "soon" rfl, hfront, hback, hapart⟩
  case front => rw [htried, hmatches]
  case time => exact ⟨_, (hresolved .reject).trans rfl, rfl, rfl⟩
  case noTime => exact ((hmoved "soon" rfl).2 .reject).trans rfl

end Matcher

end Parlance
