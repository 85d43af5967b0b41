import MakeRules.Rule.Basic

/-! Makefiles: a header, comments and rules in order, and the aggregate rule.

The header says when the log was captured and by which invocation. The
aggregate rule comes last, so the header also names it as the default goal.
-/

set_option autoImplicit false

namespace MakeRules

namespace Makefile

/-- What a makefile says of the capture that it was made from. -/
structure Header where
  capturedAt : Text
  invocation : Text
  deriving DecidableEq, Repr

inductive Entry where
  | comment (text : Text)
  | rule (rule : Rule)
  deriving DecidableEq, Repr

/-- The rule for all products of a build, and what is done after linking them. -/
structure Aggregate where
  target : Text
  prerequisites : List Text
  recipe : List Text
  deriving DecidableEq, Repr

end Makefile

structure Makefile where
  header : Makefile.Header
  entries : List Makefile.Entry
  aggregate : Makefile.Aggregate
  deriving DecidableEq, Repr

namespace Makefile

def title : Text := "# Makefile generated by logmake. Do not edit.".toList

def capturedPrefix : Text := "# captured: ".toList

def invocationPrefix : Text := "# invocation: ".toList

def goalPrefix : Text := ".DEFAULT_GOAL := ".toList

/-- A text as a comment on one line. Backslashes at its end are dropped, as they would
continue the comment on the next line. -/
def comment (text : Text) : Text :=
  let body := text.oneLine.dropEndWhile (· == '\\')
  if body.isEmpty then ['#'] else '#' :: ' ' :: body

def dependencyLine (target : Text) (prerequisites : List Text) : Text :=
  if prerequisites.isEmpty then target ++ [':']
  else target ++ ':' :: ' ' :: [' '].intercalate prerequisites

def ruleLines (target : Text) (prerequisites recipe : List Text) : List Text :=
  dependencyLine target prerequisites :: recipe.map ('\t' :: ·)

def headerLines (header : Header) (goal : Text) : List Text :=
  [title, capturedPrefix ++ header.capturedAt.oneLine,
    invocationPrefix ++ header.invocation.oneLine, goalPrefix ++ goal, []]

/-- The lines of an entry; an empty line ends a rule. -/
def entryLines : Entry → List Text
  | .comment text => [comment text]
  | .rule rule => ruleLines rule.target rule.prerequisites [rule.recipe] ++ [[]]

def lines (makefile : Makefile) : List Text :=
  headerLines makefile.header makefile.aggregate.target ++ makefile.entries.flatMap entryLines ++
    ruleLines makefile.aggregate.target makefile.aggregate.prerequisites makefile.aggregate.recipe

/-- The text of a makefile: each line and a line feed. -/
def render (makefile : Makefile) : Text :=
  makefile.lines.flatMap (· ++ ['\n'])

/-- The invocation that the header of a makefile's text names. The title must be its first
line, and the invocation is looked for in the first four. -/
def readInvocation (text : Text) : Option Text :=
  let lines := (text.splitOn '\n').take 4
  if lines.head? = some title then lines.findSome? (·.dropBeginning? invocationPrefix) else none

/-- Whether a makefile's text was made from a capture by this invocation. -/
def isFresh (text invocation : Text) : Bool :=
  readInvocation text == some invocation.oneLine

end Makefile

end MakeRules
