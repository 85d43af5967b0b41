import MakeRules.Text.Space

/-! Writing a path as a make target, as a shell word, and inside a recipe.

A target or prerequisite token is written by `makeTarget`, a shell word by `shell`,
and text copied into a recipe by `dollar`, since make reads `$$` as one dollar.
A path inside a recipe is a shell word first and recipe text second.
-/

set_option autoImplicit false

namespace MakeRules.Escape

def targetChar (c : Char) : Text :=
  if c = '$' then ['$', '$']
  else if c = '&' ∨ c = ' ' then ['\\', c]
  else [c]

/-- The characters that a backslash guards from the shell. -/
def shellSpecial : List Char := "()#&$ ".toList

def shellChar (c : Char) : Text :=
  if c ∈ shellSpecial then ['\\', c] else [c]

def dollarChar (c : Char) : Text :=
  if c = '$' then ['$', '$'] else [c]

def makeTarget (path : Text) : Text :=
  path.flatMap targetChar

def shell (path : Text) : Text :=
  path.flatMap shellChar

def dollar (command : Text) : Text :=
  command.flatMap dollarChar

/-- A path as a shell word inside a recipe. -/
def recipePath (path : Text) : Text :=
  dollar (shell path)

@[simp] theorem makeTarget_nil : makeTarget [] = [] := rfl

@[simp] theorem makeTarget_cons (c : Char) (path : Text) :
    makeTarget (c :: path) = targetChar c ++ makeTarget path := rfl

@[simp] theorem shell_nil : shell [] = [] := rfl

@[simp] theorem shell_cons (c : Char) (path : Text) :
    shell (c :: path) = shellChar c ++ shell path := rfl

@[simp] theorem dollar_nil : dollar [] = [] := rfl

@[simp] theorem dollar_cons (c : Char) (command : Text) :
    dollar (c :: command) = dollarChar c ++ dollar command := rfl

@[simp] theorem dollar_append (front back : Text) :
    dollar (front ++ back) = dollar front ++ dollar back := by
  simp [dollar]

def ofMakeTarget : Text → Text
  | [] => []
  | '$' :: '$' :: rest => '$' :: ofMakeTarget rest
  | '\\' :: '&' :: rest => '&' :: ofMakeTarget rest
  | '\\' :: ' ' :: rest => ' ' :: ofMakeTarget rest
  | c :: rest => c :: ofMakeTarget rest

/-- The text that a word with backslashes stands for. A backslash guards any
character but a line end; one that guards nothing stands for itself. -/
def ofShell : Text → Text
  | [] => []
  | '\\' :: c :: rest =>
    if isLineEnd c then '\\' :: c :: ofShell rest else c :: ofShell rest
  | c :: rest => c :: ofShell rest

end MakeRules.Escape
