import PointerAccel.Cli.Grammar

/-!
# Usage lines

A usage line is the command's name followed by its arguments. It comes in two forms.

* The full form, used by help pages and by most errors: the name, `[OPTIONS]` when the
  command has an optional switch other than help and version, its required options, every
  positional argument (`<NAME>` when required, `[NAME]` otherwise) and `<COMMAND>` when a
  subcommand must follow.
* The short form, used when an error concerns particular arguments: the name, the required
  arguments and the given ones, with no `[OPTIONS]`.

Options come before positional arguments and each is listed once, at its first mention.
-/

namespace PointerAccel.Cli

namespace CommandSpec

/-- The argument with a given id. -/
def findArg? (c : CommandSpec) (id : String) : Option ArgSpec := c.args.find? (·.id == id)

/-- The positional arguments, in order. -/
def positionals (c : CommandSpec) : List ArgSpec := c.args.filter (·.positional)

/-- The options (arguments with a switch), in declared order. -/
def options (c : CommandSpec) : List ArgSpec := c.args.filter (!·.positional)

/-- The ids of the required arguments, in declared order. -/
def requiredIds (c : CommandSpec) : List String := (c.args.filter (·.required)).map (·.id)

/-- Whether the full usage line shows `[OPTIONS]`. -/
def showsOptions (c : CommandSpec) : Bool :=
  c.options.any fun a => a.action != .help && a.action != .version && !a.required

/-- The arguments a usage line lists: the required ones and those in `extra`. -/
def usageArgs (c : CommandSpec) (extra : List String) : List String :=
  let mentioned := c.requiredIds ++ extra
  let opts := (mentioned.filterMap fun id =>
    (c.findArg? id).bind fun a => if a.positional then none else some a.display)
  let distinct := opts.foldl (fun acc o => if acc.contains o then acc else acc ++ [o]) []
  distinct ++ c.positionals.map fun a => a.positionalText (mentioned.contains a.id)

/-- ` <COMMAND>` when a subcommand must follow, else nothing. -/
def commandTail (c : CommandSpec) : String := if c.subcommands.isEmpty then "" else " <COMMAND>"

/-- The full usage line, without its heading. -/
def fullUsage (c : CommandSpec) : String :=
  c.usageName ++ (if c.showsOptions then " [OPTIONS]" else "") ++
    String.join ((c.usageArgs []).map (" " ++ ·)) ++ c.commandTail

/-- The short usage line naming the arguments in `used`, without its heading. -/
def shortUsage (c : CommandSpec) (used : List String) : String :=
  c.usageName ++ String.join ((c.usageArgs used).map (" " ++ ·)) ++ c.commandTail

/-- The usage line of an error: the full one when no argument is named, the short one
otherwise. -/
def usageLine (c : CommandSpec) (used : List String) : String :=
  "Usage: " ++ (if used.isEmpty then c.fullUsage else c.shortUsage used)

end CommandSpec

end PointerAccel.Cli
