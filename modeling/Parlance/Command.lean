import Parlance.Arrange
import Parlance.Usage

/-!
# Commands

A command is declared with its usages, its free flags and its subcommands.
Linking a declared tree tells every node its path from the root and prefixes
its usages with the parameters that lead to it. The linked tree is a type of
its own and holds nothing that the declared one does not determine.
-/

set_option autoImplicit false

namespace Parlance

/-! ## Declared commands -/

/-- Where the word of a subcommand stands. -/
inductive Attachment where
  /-- Right behind the word of its parent. -/
  | direct
  /-- Behind the arguments of its parent's first usage. -/
  | main
  deriving DecidableEq, Repr, Inhabited

/-- What is declared of a command, its subcommands apart. -/
structure Declaration (Act : Type) where
  name : String
  aliases : List String := []
  description : Option String := none
  permission : Option String := none
  usages : List (Usage Act) := []
  /-- Runs when no arguments are given; has no parameters. -/
  defaultUsage : Usage Act := {}
  /-- Flags of every usage of the command and of the commands below. -/
  freeFlags : List Flag := []
  attachment : Attachment := .direct
  /-- Usages and subcommands are suggested whatever their permission. -/
  ignoresPermission : Bool := false
  deriving Inhabited

/-- A command with its subcommands. -/
structure Command (Act : Type) extends Declaration Act where
  children : List (Command Act) := []
  deriving Inhabited

variable {Act : Type}

namespace Declaration

/-- The name, then the aliases. -/
def names (d : Declaration Act) : List String :=
  d.name :: d.aliases

/-- The word is a name or alias of the command. -/
def answersTo (d : Declaration Act) (word : String) (exact : Bool) : Bool :=
  d.names.any fun name => Text.sameWord exact name word

/-- The parameter that stands for the command in the usages of its subtree. -/
def literal (d : Declaration Act) : Parameter where
  name := d.name
  kind := .literal d.aliases

end Declaration

/-! ## Linked commands -/

/-- A declared usage as it is seen from the root. -/
structure EffectiveUsage (Act : Type) where
  usage : Usage Act
  /-- Index among the declared usages of its command. -/
  declaredIndex : Nat
  /-- Fixed words that the usage itself declares. -/
  ownLiterals : Nat
  deriving Inhabited

/-- A command in its place in a tree. -/
structure Node (Act : Type) extends Declaration Act where
  /-- Names from the root to the node. -/
  path : List String := []
  /-- Parameters that lead from the root to the node, its own word last. -/
  lead : List Parameter := []
  /-- Free flags of the ancestors, from the root down, and of the node. -/
  scopeFlags : List Flag := []
  /-- Declared usages behind the lead, those with most fixed words of their own
  first. -/
  effective : List (EffectiveUsage Act) := []
  /-- The default usage behind the lead. -/
  effectiveDefault : Usage Act := {}
  children : List (Node Act) := []
  deriving Inhabited

/-! ## Linking -/

/-- Declared usages behind a lead, in declared order, counting from `index`. -/
def EffectiveUsage.behind (lead : List Parameter) (index : Nat) :
    List (Usage Act) → List (EffectiveUsage Act)
  | [] => []
  | usage :: usages =>
    { usage := usage.behind lead
      declaredIndex := index
      ownLiterals := usage.literalCount } :: EffectiveUsage.behind lead (index + 1) usages

/-- The parameters that lead to a subcommand of `parent`, when `lead` leads to
`parent` itself. -/
def leadTo (lead : List Parameter) (parent child : Declaration Act) : List Parameter :=
  let between :=
    match child.attachment, parent.usages with
    | .main, main :: _ => main.parameters
    | _, _ => []
  lead ++ between ++ [child.literal]

mutual

/-- The command below a node with path `above`, reached by `lead`, with the
free flags `inherited` in scope. -/
def Command.linkUnder (above : List String) (lead : List Parameter) (inherited : List Flag) :
    Command Act → Node Act
  | ⟨d, children⟩ =>
    let path := above ++ [d.name]
    let flags := inherited ++ d.freeFlags.map Flag.freed
    { d with
      path := path
      lead := lead
      scopeFlags := flags
      effective := arrange (fun a b => b.ownLiterals ≤ a.ownLiterals)
        (EffectiveUsage.behind lead 0 d.usages)
      effectiveDefault := d.defaultUsage.behind lead
      children := Command.linkAll path lead flags d children }

/-- The subcommands of a command, each in its place. -/
def Command.linkAll (path : List String) (lead : List Parameter) (flags : List Flag)
    (parent : Declaration Act) : List (Command Act) → List (Node Act)
  | [] => []
  | child :: children =>
    child.linkUnder path (leadTo lead parent child.toDeclaration) flags
      :: Command.linkAll path lead flags parent children

end

/-- The tree of a root command. -/
def Command.link (command : Command Act) : Node Act :=
  command.linkUnder [] [] []

mutual

/-- The tree with nothing linked yet. -/
def Command.unlinked : Command Act → Node Act
  | ⟨d, children⟩ => { d with children := Command.unlinkedAll children }

/-- Subcommands with nothing linked yet. -/
def Command.unlinkedAll : List (Command Act) → List (Node Act)
  | [] => []
  | child :: children => child.unlinked :: Command.unlinkedAll children

end

mutual

/-- The declared tree of a node, whatever its linked data. -/
def Node.declared : Node Act → Command Act
  | ⟨d, _, _, _, _, _, children⟩ => ⟨d, Node.declaredAll children⟩

/-- The declared trees of nodes. -/
def Node.declaredAll : List (Node Act) → List (Command Act)
  | [] => []
  | child :: children => child.declared :: Node.declaredAll children

end

/-! ## Views of a node -/

namespace Node

/-- The path of the parent; roots have none. -/
def parentPath? (node : Node Act) : Option (List String) :=
  if node.path.length ≤ 1 then none else some node.path.dropLast

/-- A root, or a node that is not linked. -/
def isRoot (node : Node Act) : Bool :=
  node.path.length ≤ 1

/-- The lead without its flags. -/
def positionalLead (node : Node Act) : List Parameter :=
  node.lead.filter fun p => !p.isFlag

/-- Index of the node's own word among the positional tokens; roots have none. -/
def literalSlot? (node : Node Act) : Option Nat :=
  match node.positionalLead.length with
  | 0 => none
  | n + 1 => some n

/-- The first subcommand that answers to the word. -/
def child? (node : Node Act) (word : String) (exact : Bool) : Option (Node Act) :=
  node.children.find? fun child => child.answersTo word exact

/-- The node that the words lead to, one subcommand after the other. -/
def descendant? (node : Node Act) : List String → Option (Node Act)
  | [] => some node
  | word :: words => (node.child? word false).bind fun child => child.descendant? words

/-- Usages with fixed words of their own. -/
def literalUsages (node : Node Act) : List (EffectiveUsage Act) :=
  node.effective.filter fun e => 0 < e.ownLiterals

/-- Usages without fixed words of their own. -/
def valueUsages (node : Node Act) : List (EffectiveUsage Act) :=
  node.effective.filter fun e => e.ownLiterals = 0

/-- Usages in the order of their declaration. -/
def usagesAsDeclared (node : Node Act) : List (EffectiveUsage Act) :=
  arrange (fun a b => a.declaredIndex ≤ b.declaredIndex) node.effective

/-- Flags in effect for a usage of the node: its own, then the free ones. -/
def flagsFor (node : Node Act) (usage : Usage Act) : List Flag :=
  usage.flags ++ node.scopeFlags

/-- Flags in effect on the way to the node: those of the lead, then the free
ones. -/
def flagsOnPath (node : Node Act) : List Flag :=
  node.lead.filterMap Parameter.flag? ++ node.scopeFlags

end Node

/-! ## Laws of linking -/

mutual

theorem Command.declared_linkUnder (above : List String) (lead : List Parameter)
    (inherited : List Flag) : ∀ command : Command Act,
    (command.linkUnder above lead inherited).declared = command
  | ⟨d, children⟩ => by
    simp only [Command.linkUnder, Node.declared]
    rw [Command.declaredAll_linkAll]

theorem Command.declaredAll_linkAll (path : List String) (lead : List Parameter)
    (flags : List Flag) (parent : Declaration Act) : ∀ children : List (Command Act),
    Node.declaredAll (Command.linkAll path lead flags parent children) = children
  | [] => rfl
  | child :: children => by
    simp only [Command.linkAll, Node.declaredAll]
    rw [Command.declared_linkUnder, Command.declaredAll_linkAll]

end

theorem Command.declared_link (command : Command Act) : command.link.declared = command :=
  Command.declared_linkUnder _ _ _ _

end Parlance
