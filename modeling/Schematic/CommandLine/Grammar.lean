import Schematic.Text.Quoted

/-!
# Grammar of the command line

The program has two commands, and each of them has a grammar of its own beside that of the program:
the flags that it knows and one slot for the words that are no flags. The usage and the help of a
grammar are laid out for lines of 80 columns.
-/

namespace Schematic.CommandLine

/-- The flags of all grammars. -/
inductive Flag where
  | help
  | param
  | format
  | output
  deriving DecidableEq

/-- What the words stand for that are no flags. -/
inductive Slot where
  | command
  | component
  | value
  deriving DecidableEq

/-- The grammars of the program and of its two commands. -/
inductive Grammar where
  | program
  | render
  | gvk
  deriving DecidableEq

namespace Flag

def names : Flag → List Text
  | .help => ["-h", "--help"]
  | .param => ["--param"]
  | .format => ["--format"]
  | .output => ["--output"]

/-- The values that a flag may have, if they are fixed. -/
def choices? : Flag → Option (List Text)
  | .format => some ["yaml", "json"]
  | _ => none

def label (f : Flag) : Text := Text.join "/" f.names

end Flag

namespace Slot

def label : Slot → Text
  | .command => "command"
  | .component => "component"
  | .value => "value"

end Slot

namespace Grammar

def commands : List Grammar := [.render, .gvk]

def name : Grammar → Text
  | .program => "hydra-schematic"
  | .render => "render"
  | .gvk => "gvk"

def call : Grammar → Text
  | .program => "hydra-schematic"
  | .render => "hydra-schematic render"
  | .gvk => "hydra-schematic gvk"

def flags : Grammar → List Flag
  | .program => [.help]
  | .render => [.help, .param, .format, .output]
  | .gvk => [.help]

def slot : Grammar → Slot
  | .program => .command
  | .render => .component
  | .gvk => .value

/-- Lines of text, each with its end. -/
def paragraph (ls : List Text) : Text := (ls.map fun (l : Text) => l ++ "\n").flatten

def usage : Grammar → Text
  | .program => paragraph ["usage: hydra-schematic [-h] \x7brender,gvk\x7d ..."]
  | .render => paragraph [
      "usage: hydra-schematic render [-h] [--param NAME=VALUE] [--format \x7byaml,json\x7d]",
      "                              [--output OUTPUT]",
      "                              component"]
  | .gvk => paragraph ["usage: hydra-schematic gvk [-h] value"]

/-- What the help of a grammar says after its usage. -/
def description : Grammar → Text
  | .program => paragraph [
      "",
      "Hydra component schematic tools",
      "",
      "positional arguments:",
      "  \x7brender,gvk\x7d",
      "    render      Render a component into a pod spec",
      "    gvk         Split a group/version.kind identifier",
      "",
      "options:",
      "  -h, --help    show this help message and exit"]
  | .render => paragraph [
      "",
      "positional arguments:",
      "  component             Component file (JSON or YAML)",
      "",
      "options:",
      "  -h, --help            show this help message and exit",
      "  --param NAME=VALUE    Parameter value, may be repeated",
      "  --format \x7byaml,json\x7d  Output format",
      "  --output OUTPUT       Write to this file instead of stdout"]
  | .gvk => paragraph [
      "",
      "positional arguments:",
      "  value",
      "",
      "options:",
      "  -h, --help  show this help message and exit"]

def help (g : Grammar) : Text := g.usage ++ g.description

end Grammar

/-! ### Misuse -/

/-- What is wrong with a command line. -/
inductive Misuse where
  /-- A shortened flag could be one of several. -/
  | ambiguous (word : Text) (names : List Text)
  /-- A flag without value is given one. -/
  | ignored (flag : Flag) (value : Text)
  /-- The value of a flag is missing. -/
  | expectedValue (flag : Flag)
  /-- A value is none of the fixed ones. -/
  | noChoice (label value : Text) (choices : List Text)
  /-- A slot is empty. -/
  | required (slot : Slot)
  /-- Some words are left over. -/
  | unrecognized (words : List Text)
  deriving DecidableEq

def Misuse.message : Misuse → Text
  | .ambiguous word names =>
    "ambiguous option: " ++ word ++ " could match " ++ Text.join ", " names
  | .ignored flag value =>
    "argument " ++ flag.label ++ ": ignored explicit argument " ++ value.quoted
  | .expectedValue flag => "argument " ++ flag.label ++ ": expected one argument"
  | .noChoice label value choices =>
    "argument " ++ label ++ ": invalid choice: " ++ value.quoted ++ " (choose from "
      ++ Text.join ", " (choices.map Text.quoted) ++ ")"
  | .required slot => "the following arguments are required: " ++ slot.label
  | .unrecognized words => "unrecognized arguments: " ++ Text.join " " words

/-- Why a command line is no request. -/
inductive Stop where
  | help (g : Grammar)
  | misuse (g : Grammar) (m : Misuse)
  deriving DecidableEq

end Schematic.CommandLine
