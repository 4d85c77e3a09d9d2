import Parlance.Command

/-!
# Verification

What a declared command must satisfy to be registered. The first fault found
is the answer; faults are looked for in the order in which they are declared.
-/

set_option autoImplicit false

namespace Parlance

variable {Act : Type}

/-- The outcome of a check. -/
abbrev Check (α : Type) := Except RegistrationError α

/-! ## Usages -/

/-- Adds names to those seen in a usage; none may have been seen. -/
def claimNames (usage : String) (seen : List String) : List String → Check (List String)
  | [] => .ok seen
  | name :: names =>
    if seen.contains name then .error (.duplicateParameter usage name)
    else claimNames usage (name :: seen) names

/-- Every name can be typed behind a dash. -/
def checkFlagNames : List String → Check Unit
  | [] => .ok ()
  | name :: names =>
    if Flag.isTypableName name then checkFlagNames names else .error (.invalidFlagName name)

/-- Bounds, if there are any, stand on a numeric parameter and are in order. -/
def Parameter.boundsFit (p : Parameter) : Bool :=
  match p.bounds with
  | none => true
  | some bounds => p.type?.any ValueType.isNumeric && bounds.areOrdered

/-- Names and bounds of the parameters, given the names seen before. -/
def checkParameters (usage : String) (seen : List String) : List Parameter → Check Unit
  | [] => .ok ()
  | p :: ps =>
    if Text.allBlank p.name then .error .emptyName
    else do
      let seen ← claimNames usage seen p.claimedNames
      if p.isFlag then checkFlagNames p.claimedNames
      if p.boundsFit then checkParameters usage seen ps
      else throw (.invalidBounds p.name)

/-- At most one positional parameter is greedy, and it is the last. -/
def checkGreedy (usage : String) (positional : List Parameter) : Check Unit :=
  match positional.countP Parameter.isGreedy with
  | 0 => .ok ()
  | 1 => if positional.getLast?.any Parameter.isGreedy then .ok () else .error (.greedyNotLast usage)
  | _ => .error (.severalGreedy usage)

/-- The usage is consistent in itself. -/
def Usage.verify (usage : Usage Act) : Check Unit := do
  checkParameters usage.compact [] usage.parameters
  checkGreedy usage.compact usage.positional

/-! ## Ambiguity -/

/-- Some token could fill both parameters. A fixed word never meets a value. -/
def Parameter.overlaps (a b : Parameter) : Bool :=
  match a.isLiteral, b.isLiteral with
  | true, true => a.literalNames.any fun x => b.literalNames.any (Text.sameFolded x)
  | false, false =>
    match a.type?, b.type? with
    | some x, some y => x.overlaps y
    | _, _ => true
  | _, _ => false

/-- The usages have as many positional parameters, and some token could fill
both at every position. -/
def Usage.isAmbiguousWith (a b : Usage Act) : Bool :=
  a.positional.length == b.positional.length
    && (a.positional.zip b.positional).all fun (x, y) => x.overlaps y

/-- No usage is ambiguous with a later one. -/
def checkAmbiguity (command : String) : List (Usage Act) → Check Unit
  | [] => .ok ()
  | first :: rest =>
    match rest.find? first.isAmbiguousWith with
    | some second => .error (.ambiguousUsages command first.compact second.compact)
    | none => checkAmbiguity command rest

/-! ## Commands -/

/-- Adds the names of free flags to those in scope; each must be typable and
new. -/
def claimFreeNames (command : String) (scope : List String) : List String → Check (List String)
  | [] => .ok scope
  | name :: names =>
    if !Flag.isTypableName name then .error (.invalidFlagName name)
    else if scope.contains name then .error (.duplicateParameter command name)
    else claimFreeNames command (scope ++ [name]) names

/-- The parameter clashes with an inherited value or with a free flag. -/
def Parameter.clashes (inherited scope : List String) (p : Parameter) : Bool :=
  (!p.isLiteral && inherited.contains p.name)
    || (p.isFlag && p.claimedNames.any scope.contains)

/-- Every usage is consistent and clashes with nothing inherited or in scope. -/
def checkUsages (inherited scope : List String) : List (Usage Act) → Check Unit
  | [] => .ok ()
  | usage :: usages => do
    usage.verify
    match usage.parameters.find? (Parameter.clashes inherited scope) with
    | some p => throw (.duplicateParameter usage.compact p.name)
    | none => checkUsages inherited scope usages

/-- Adds the names of a subcommand, letter case apart, to those of its siblings;
none may be taken. -/
def claimChildNames (command : String) (taken : List String) : List String → Check (List String)
  | [] => .ok taken
  | name :: names =>
    if taken.contains (Text.smallLetters name) then .error (.duplicateSubcommand command name)
    else claimChildNames command (Text.smallLetters name :: taken) names

/-- Names of the values that a subcommand inherits from its parent's first
usage, which must be of fixed width if the subcommand follows it. -/
def inheritedFrom (parent child : Declaration Act) : Check (List String) :=
  match child.attachment with
  | .direct => .ok []
  | .main =>
    match parent.usages with
    | main :: _ =>
      if main.positional.all Parameter.isRequired then
        .ok ((main.parameters.filter fun p => !p.isLiteral).map Parameter.name)
      else .error (.unsupportedAttachment child.name)
    | [] => .error (.unsupportedAttachment child.name)

/-- What is declared of a command, its subcommands apart, is in order. The
answer is the free flag names in scope. -/
def Declaration.verify (inherited scope : List String) (d : Declaration Act) :
    Check (List String) := do
  if d.names.any Text.allBlank then throw .emptyName
  if !d.defaultUsage.isEmpty then throw (.defaultUsageNotEmpty d.name)
  let scope ← claimFreeNames d.name scope (d.freeFlags.flatMap Flag.names)
  checkUsages inherited scope d.usages
  checkAmbiguity d.name d.usages
  return scope

mutual

/-- The command and all below it are in order, where values named `inherited`
and free flags named `scope` come from above. -/
def Command.verifyUnder (inherited scope : List String) : Command Act → Check Unit
  | ⟨d, children⟩ => do
    let scope ← d.verify inherited scope
    Command.verifyAll inherited scope d [] children

/-- Subcommands are in order, where names `taken` belong to earlier ones. -/
def Command.verifyAll (inherited scope : List String) (parent : Declaration Act)
    (taken : List String) : List (Command Act) → Check Unit
  | [] => .ok ()
  | child :: children => do
    let taken ← claimChildNames parent.name taken child.names
    let more ← inheritedFrom parent child.toDeclaration
    child.verifyUnder (inherited ++ more) scope
    Command.verifyAll inherited scope parent taken children

end

/-- The command may be registered as a root. -/
def Command.verify (command : Command Act) : Check Unit :=
  command.verifyUnder [] []

end Parlance
