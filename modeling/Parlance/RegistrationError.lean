/-!
# Registration errors

Why a command is not admitted to an engine, and how it is told.
-/

set_option autoImplicit false

namespace Parlance

/-- What is wrong with a command, a usage or a definition. -/
inductive RegistrationError where
  /-- A command or a parameter has a blank name. -/
  | emptyName
  /-- An element of a compact usage is malformed. -/
  | invalidElement (element : String)
  /-- A name is taken twice among parameters and flags. -/
  | duplicateParameter (usage name : String)
  /-- A usage has several greedy parameters. -/
  | severalGreedy (usage : String)
  /-- A greedy parameter is followed by a positional one. -/
  | greedyNotLast (usage : String)
  /-- A name or alias of a flag cannot be typed. -/
  | invalidFlagName (name : String)
  /-- Bounds on a parameter that is not numeric, or bounds out of order. -/
  | invalidBounds (parameter : String)
  /-- A default usage has parameters. -/
  | defaultUsageNotEmpty (command : String)
  /-- Two usages of a command could match the same tokens. -/
  | ambiguousUsages (command first second : String)
  /-- Two subcommands share a name or alias. -/
  | duplicateSubcommand (command name : String)
  /-- A name or alias of a root command is taken. -/
  | duplicateCommand (name : String)
  /-- A subcommand is to follow a main usage that is missing or not of fixed
  width. -/
  | unsupportedAttachment (subcommand : String)
  deriving DecidableEq, Repr, Inhabited

namespace RegistrationError

/-- The error in words. -/
def message : RegistrationError → String
  | emptyName => "name cannot be empty"
  | invalidElement element => "invalid usage syntax element: " ++ element
  | duplicateParameter usage name =>
    "duplicate parameter '" ++ name ++ "' in usage '" ++ usage ++ "'"
  | severalGreedy usage => "usage '" ++ usage ++ "' declares more than one greedy parameter"
  | greedyNotLast usage => "greedy parameter must be last in usage '" ++ usage ++ "'"
  | invalidFlagName name => "invalid flag name: " ++ name
  | invalidBounds parameter => "invalid range on parameter '" ++ parameter ++ "'"
  | defaultUsageNotEmpty command =>
    "default usage of '" ++ command ++ "' must not declare parameters"
  | ambiguousUsages command first second =>
    "ambiguous usages in '" ++ command ++ "': '" ++ first ++ "' and '" ++ second ++ "'"
  | duplicateSubcommand command name =>
    "duplicate subcommand '" ++ name ++ "' in '" ++ command ++ "'"
  | duplicateCommand name => "command already registered: " ++ name
  | unsupportedAttachment subcommand =>
    "subcommand '" ++ subcommand ++ "' cannot attach after its parent's main usage"

end RegistrationError

end Parlance
