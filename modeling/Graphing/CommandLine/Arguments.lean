import Graphing.Decimal.Numeral

/-!
# Arguments of the command line

The command takes one formula and options for the table to print. Arguments are
taken from left to right, and the first that cannot be understood ends the
reading; so does a request for help or for the version. After a double dash every argument is
a formula.
-/

namespace Graphing.CommandLine

-- powers are those of core, whatever other instances there are
attribute [local instance (high)] instPowNat

/-- What the command line asks for. -/
structure Invocation where
  expression : String
  low : Binary64
  high : Binary64
  samples : Nat
  showTerm : Bool
  deriving DecidableEq

/-- How a command line is understood. -/
inductive Usage where
  /-- Print a table. -/
  | table (invocation : Invocation)
  /-- Print the version. -/
  | version
  /-- Print what the arguments mean. -/
  | help
  /-- The arguments make no sense. -/
  | misuse
  deriving DecidableEq

/-- The arguments understood so far. -/
structure Gathered where
  expression : Option String := none
  low : Option Binary64 := none
  high : Option Binary64 := none
  samples : Option Nat := none
  showTerm : Bool := false

/-- The options that take a value. -/
inductive Setting where
  | low
  | high
  | samples
  deriving DecidableEq

/-- The option of a name. -/
def Setting.ofName? (name : String) : Option Setting :=
  if name = "--from" then some .low
  else if name = "--to" then some .high
  else if name = "--samples" then some .samples
  else none

/-- Whether a value that is an argument of its own may begin with a dash. -/
def Setting.allowsDash : Setting → Bool
  | .low => true
  | .high => true
  | .samples => false

/-- Reads a count: digits after an optional plus sign, below `2 ^ 64`. -/
def readCount? (s : String) : Option Nat :=
  let digits := match s.toList with
    | '+' :: cs => cs
    | cs => cs
  if digits.isEmpty || !digits.all Char.isDigit then none
  else if Decimal.ofDigits digits < 2 ^ (64 : Nat) then some (Decimal.ofDigits digits)
  else none

namespace Gathered

/-- Adds a formula; there may be only one. -/
def addExpression? (gathered : Gathered) (text : String) : Option Gathered :=
  match gathered.expression with
  | none => some { gathered with expression := some text }
  | some _ => none

/-- Adds the value of an option; each may be given once. -/
def addSetting? (gathered : Gathered) (setting : Setting) (value : String) : Option Gathered :=
  match setting with
  | .low =>
      match gathered.low, Binary64.ofText? value with
      | none, some x => some { gathered with low := some x }
      | _, _ => none
  | .high =>
      match gathered.high, Binary64.ofText? value with
      | none, some x => some { gathered with high := some x }
      | _, _ => none
  | .samples =>
      match gathered.samples, readCount? value with
      | none, some n => some { gathered with samples := some n }
      | _, _ => none

/-- The invocation, if there is a formula. Without options the table has eleven
rows from `-10` to `10`. -/
def usage (gathered : Gathered) : Usage :=
  match gathered.expression with
  | none => .misuse
  | some expression =>
      .table
        { expression
          low := gathered.low.getD (Binary64.neg (Binary64.ofNat 10))
          high := gathered.high.getD (Binary64.ofNat 10)
          samples := gathered.samples.getD 11
          showTerm := gathered.showTerm }

end Gathered

/-- Whether a text begins with a dash. -/
def beginsWithDash (s : String) : Bool :=
  s.toList.head? = some '-'

/-- What a single argument before a double dash is. -/
inductive Argument where
  | formula (text : String)
  | term
  | version
  | help
  | separator
  /-- An option whose value is the next argument. -/
  | setting (setting : Setting)
  /-- An option with its value after an equals sign. -/
  | assigned (setting : Setting) (value : String)
  | unknown
  deriving DecidableEq

/-- What a single argument is. A lone dash is a formula, and so is every text that
does not begin with one. -/
def Argument.ofText (s : String) : Argument :=
  if !beginsWithDash s || s = "-" then .formula s
  else if s = "--" then .separator
  else if s = "--tree" then .term
  else if s = "--version" then .version
  else if s.toList.take 2 = ['-', 'V'] then .version
  else if s = "--help" then .help
  else if s.toList.take 2 = ['-', 'h'] then .help
  else
    match Setting.ofName? s with
    | some option => .setting option
    | none =>
        let name := String.ofList (s.toList.takeWhile (· != '='))
        let value := s.toList.dropWhile (· != '=')
        match Setting.ofName? name, value with
        | some option, _ :: value => .assigned option (String.ofList value)
        | _, _ => .unknown

/-- Gathers arguments after a double dash. -/
def gatherFormulas (gathered : Gathered) : List String → Usage
  | [] => gathered.usage
  | text :: rest =>
      match gathered.addExpression? text with
      | none => .misuse
      | some gathered => gatherFormulas gathered rest

/-- Gathers arguments from left to right. -/
def gather (gathered : Gathered) : List String → Usage
  | [] => gathered.usage
  | text :: rest =>
      match Argument.ofText text with
      | .formula text =>
          match gathered.addExpression? text with
          | none => .misuse
          | some gathered => gather gathered rest
      | .term =>
          if gathered.showTerm then .misuse
          else gather { gathered with showTerm := true } rest
      | .version => .version
      | .help => .help
      | .separator => gatherFormulas gathered rest
      | .assigned setting value =>
          match gathered.addSetting? setting value with
          | none => .misuse
          | some gathered => gather gathered rest
      | .setting setting =>
          match rest with
          | [] => .misuse
          | value :: rest =>
              if beginsWithDash value && !setting.allowsDash then .misuse
              else
                match gathered.addSetting? setting value with
                | none => .misuse
                | some gathered => gather gathered rest
      | .unknown => .misuse

/-- Understands a command line. -/
def understand (arguments : List String) : Usage :=
  gather {} arguments

end Graphing.CommandLine
