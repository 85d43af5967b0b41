import MakeRules.Words

/-! The compiler calls inside the commands that a log shows for Swift.

The build system calls the driver and the compiler through wrappers of its own,
and asks the driver for output that only the build system reads. What is left
without both is the call that a rule repeats.
-/

set_option autoImplicit false

namespace MakeRules.SwiftInvocation

/-- The command behind a wrapper: a word at the front, `--`, and white space behind each. -/
def dropWrapper (wrapper command : Text) : Text :=
  let behind := do
    let arguments ← command.behindWord? wrapper
    let rest ← arguments.trimStart.behindWord? "--".toList
    return rest.trimStart
  behind.getD command

/-- The flag that asks the driver for output meant for the build system. -/
def parseableOutput : Text := "-parseable-output".toList

/-- The text without each occurrence of a word together with the white space before it;
`taken` characters at the front belong to an occurrence found before. White space seen
since the last other character waits in `gap`. -/
def dropWordFrom (word : Text) : (taken : Nat) → (gap : Text) → Text → Text
  | _, gap, [] => gap
  | taken + 1, _, _ :: rest => dropWordFrom word taken [] rest
  | 0, gap, c :: rest =>
    if isSpace c then dropWordFrom word 0 (gap ++ [c]) rest
    else if !gap.isEmpty && Text.startsWithWord (c :: rest) word then
      -- the first character of the word is this one, and its gap goes with it
      dropWordFrom word (word.length - 1) [] rest
    else gap ++ c :: dropWordFrom word 0 [] rest

/-- The text without each later occurrence of a word, the white space before it included. -/
def dropWord (word text : Text) : Text :=
  dropWordFrom word 0 [] text

def ofDriverLine (line : Text) : Text :=
  dropWord parseableOutput (dropWrapper "builtin-SwiftDriver".toList line)

def ofCompileLine (line : Text) : Text :=
  dropWrapper "builtin-swiftTaskExecution".toList line

/-- The file map that a driver call names: the option is looked for in the record first. -/
def outputFileMapPath? (line invocation : Text) : Option Text :=
  let option := "-output-file-map".toList
  (optionValue? (splitWords line) option).or (optionValue? (splitWords invocation) option)

/-- Whether a text begins with a compiler call: the compiler's name, `-frontend` and `-c`. -/
def startsCompile (text : Text) : Bool :=
  let mode := (text.behindWord? "swift".toList).or (text.behindWord? "swift-frontend".toList)
  let action := mode.bind fun text => text.trimStart.behindWord? "-frontend".toList
  action.any fun text => text.trimStart.startsWithWord "-c".toList

/-- Whether a text holds a compiler call, at its front or behind a slash or white space. -/
def holdsCompile : Text → Bool
  | [] => false
  | c :: rest => ((c == '/' || isSpace c) && startsCompile rest) || holdsCompile rest

def isCompile (command : Text) : Bool :=
  startsCompile command || holdsCompile command

end MakeRules.SwiftInvocation
