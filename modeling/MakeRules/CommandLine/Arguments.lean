import MakeRules.Text.Basic

/-! The arguments of the command line.

Words are read from left to right and the first problem is reported. An option
that holds text takes its value behind an equals sign or from the next word,
which then must not look like an option itself. Words that are no options are
not allowed.
-/

set_option autoImplicit false

namespace MakeRules.CommandLine

inductive TextOption where
  | log
  | out
  | invocation
  | config
  | ledger
  | aggregateTarget
  deriving DecidableEq, Repr

namespace TextOption

def all : List TextOption :=
  [.log, .out, .invocation, .config, .ledger, .aggregateTarget]

theorem mem_all (option : TextOption) : option ∈ all := by
  cases option <;> decide

def name : TextOption → Text
  | .log => "log".toList
  | .out => "out".toList
  | .invocation => "invocation".toList
  | .config => "config".toList
  | .ledger => "ledger".toList
  | .aggregateTarget => "aggregate-target".toList

def flag (option : TextOption) : Text :=
  "--".toList ++ option.name

def ofName? (name : Text) : Option TextOption :=
  all.find? (·.name == name)

end TextOption

/-- The name and the letter of the option that asks for the usage. -/
def helpName : Text := "help".toList

def helpLetter : Char := 'h'

/-- What the arguments say. The last value of an option counts. -/
structure Arguments where
  value? : TextOption → Option Text := fun _ => none
  help : Bool := false

namespace Arguments

def set (arguments : Arguments) (option : TextOption) (value : Text) : Arguments :=
  { arguments with
    value? := fun other => if other = option then some value else arguments.value? other }

def askHelp (arguments : Arguments) : Arguments :=
  { arguments with help := true }

end Arguments

inductive ArgumentFault where
  | unexpected (word : Text)
  | unknown (option : Text)
  | valueMissing (option : TextOption)
  /-- The next word looks like an option. -/
  | ambiguous (option : TextOption)
  | helpTakesNoValue
  deriving DecidableEq, Repr

def ArgumentFault.message : ArgumentFault → Text
  | .unexpected word =>
    "Unexpected argument '".toList ++ word ++
      "'. This command does not take positional arguments".toList
  | .unknown option => "Unknown option '".toList ++ option ++ "'".toList
  | .valueMissing option => "Option '".toList ++ option.flag ++ " <value>' argument missing".toList
  | .ambiguous option =>
    "Option '".toList ++ option.flag ++
      "' argument is ambiguous.\nDid you forget to specify the option argument for '".toList ++
      option.flag ++
      "'?\nTo specify an option argument starting with a dash use '".toList ++ option.flag ++
      "=-XYZ'.".toList
  | .helpTakesNoValue =>
    "Option '-".toList ++ helpLetter :: ", --".toList ++ helpName ++
      "' does not take an argument".toList

/-- The shapes of a word of the command line. -/
inductive ArgumentWord where
  | plain
  | terminator
  | letters (letters : Text)
  | named (name : Text) (value : Option Text)
  deriving DecidableEq, Repr

/-- A name goes to its first equals sign; one right at the front counts only before another. -/
def ArgumentWord.ofName (text : Text) : ArgumentWord :=
  if (text.drop 1).contains '=' then
    .named (text.takeWhile (· != '=')) (some ((text.dropWhile (· != '=')).drop 1))
  else .named text none

def ArgumentWord.ofText : Text → ArgumentWord
  | ['-', '-'] => .terminator
  | '-' :: '-' :: text => ofName text
  | '-' :: c :: text => .letters (c :: text)
  | _ => .plain

/-- Behind the end of the options no word is allowed. -/
def allowNone (arguments : Arguments) : List Text → Except ArgumentFault Arguments
  | [] => .ok arguments
  | word :: _ => .error (.unexpected word)

/-- Read the letters of a group. A dash among them ends the options, and the letters
behind it are words of their own. -/
def readLetters (arguments : Arguments) : Text → List Text → Except ArgumentFault (Arguments × Bool)
  | [], _ => .ok (arguments, false)
  | '-' :: letters, rest =>
    (allowNone arguments (letters.map (['-', ·]) ++ rest)).map (·, true)
  | c :: letters, rest =>
    if c = helpLetter then readLetters arguments.askHelp letters rest
    else .error (.unknown ['-', c])

/-- Whether a word could be meant as an option. -/
def looksLikeOption : Text → Bool
  | '-' :: _ :: _ => true
  | _ => false

/-- Read the words behind those that have been read. -/
def readFrom (arguments : Arguments) : List Text → Except ArgumentFault Arguments
  | [] => .ok arguments
  | word :: rest =>
    match ArgumentWord.ofText word with
    | .plain => .error (.unexpected word)
    | .terminator => allowNone arguments rest
    | .letters letters =>
      match readLetters arguments letters rest with
      | .error fault => .error fault
      | .ok (arguments, ended) => if ended then .ok arguments else readFrom arguments rest
    | .named name value =>
      if name = helpName then
        if value.isSome then .error .helpTakesNoValue else readFrom arguments.askHelp rest
      else
        match TextOption.ofName? name, value, rest with
        | none, _, _ => .error (.unknown ("--".toList ++ name))
        -- behind an equals sign a value may begin with a dash
        | some option, some value, rest => readFrom (arguments.set option value) rest
        | some option, none, [] => .error (.valueMissing option)
        | some option, none, next :: rest =>
          if looksLikeOption next then .error (.ambiguous option)
          else readFrom (arguments.set option next) rest

def Arguments.ofWords (words : List Text) : Except ArgumentFault Arguments :=
  readFrom {} words

end MakeRules.CommandLine
