import Parlance.Command

/-!
# Linking in place

A tree may be linked again after it was changed. Every node is then written over where it
stands, first its own data, each from what was written before it, and then its subcommands.
-/

set_option autoImplicit false

namespace Parlance.Node

variable {Act : Type}

/-- The node with its linked data written anew, below a node with path `above`, reached by
`lead`, with the free flags `inherited` in scope. -/
def settle (above : List String) (lead : List Parameter) (inherited : List Flag)
    (node : Node Act) : Node Act :=
  let node := { node with path := above ++ [node.name] }
  let node := { node with lead := lead }
  let node := { node with scopeFlags := inherited }
  let node := { node with scopeFlags := node.scopeFlags ++ node.freeFlags.map Flag.freed }
  let effective := arrange (fun a b => b.ownLiterals ≤ a.ownLiterals)
    (EffectiveUsage.behind node.lead 0 node.usages)
  let node := { node with effective := effective }
  { node with effectiveDefault := node.defaultUsage.behind node.lead }

mutual

/-- The node with its tree linked anew, below a node with path `above`. -/
def relinkUnder (above : List String) (lead : List Parameter) (inherited : List Flag) :
    Node Act → Node Act
  | ⟨d, path, oldLead, scopeFlags, effective, effectiveDefault, children⟩ =>
    let node := settle above lead inherited
      ⟨d, path, oldLead, scopeFlags, effective, effectiveDefault, children⟩
    { node with children := relinkAll node children }

/-- The subcommands of a node that has its own data already, linked anew. -/
def relinkAll (parent : Node Act) : List (Node Act) → List (Node Act)
  | [] => []
  | child :: children =>
    child.relinkUnder parent.path
        (leadTo parent.lead parent.toDeclaration child.toDeclaration) parent.scopeFlags
      :: relinkAll parent children

end

/-- The tree of a root, linked anew. -/
def relink (node : Node Act) : Node Act :=
  node.relinkUnder [] [] []

end Parlance.Node
