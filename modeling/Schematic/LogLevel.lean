import Schematic.Text.Blank

/-!
# Log levels

How grave a message of the log is. A setting names the level from which on messages are shown;
letters of either case and blanks around the name are let pass, and a setting without a known name
is none.
-/

namespace Schematic

/-- How grave a message is. -/
inductive LogLevel where
  | notSet
  | debug
  | info
  | warning
  | error
  | critical
  deriving DecidableEq

namespace LogLevel

/-- Levels are compared by number. -/
def number : LogLevel → Int
  | .notSet => 0
  | .debug => 10
  | .info => 20
  | .warning => 30
  | .error => 40
  | .critical => 50

def name : LogLevel → Text
  | .notSet => "NOTSET"
  | .debug => "DEBUG"
  | .info => "INFO"
  | .warning => "WARNING"
  | .error => "ERROR"
  | .critical => "CRITICAL"

/-- The names that a setting may use. -/
def settingNames : List (String × LogLevel) :=
  [("CRITICAL", .critical), ("FATAL", .critical), ("ERROR", .error), ("WARNING", .warning),
    ("WARN", .warning), ("INFO", .info), ("DEBUG", .debug), ("NOTSET", .notSet)]

/-- The capital of a letter, where the capital is in ASCII: there are two such letters outside of
it, the dotless i and the long s. -/
def capital : CodePoint → CodePoint
  | .char 'ı' => .char 'I'
  | .char 'ſ' => .char 'S'
  | .char c => .char c.toUpper
  | c => c

/-- The level that a setting names. -/
def ofSetting? (setting : Option Text) : Option LogLevel :=
  let name := ((setting.getD []).trim).map capital
  (settingNames.find? fun e => name == Text.ofString e.1).map (·.2)

/-- The number of the level from which on messages are shown. -/
def threshold (default : Int) (setting : Option Text) : Int :=
  ((ofSetting? setting).map number).getD default

end LogLevel

end Schematic
