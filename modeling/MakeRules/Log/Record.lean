import MakeRules.Number.Decimal
import MakeRules.Text.Space

/-! Records of a build log: its lines, trimmed and numbered from one.

Only the records of a log have their lines' numbers. A record on its own may
have any number, even a fraction.
-/

set_option autoImplicit false

namespace MakeRules

structure Record where
  text : Text
  line : Decimal
  deriving DecidableEq, Repr

def Record.isBlank (record : Record) : Bool :=
  record.text.isEmpty

/-- The records of a log, or those of them that are still to be read. -/
abbrev Log := List Record

namespace Log

/-- The records of lines that stand behind so many others. -/
def ofLines (before : Nat) (lines : List Text) : Log :=
  (lines.zipIdx (before + 1)).map fun (text, line) => ⟨text.trim, .ofNat line⟩

@[simp] theorem ofLines_nil (before : Nat) : ofLines before [] = [] := rfl

@[simp] theorem ofLines_cons (before : Nat) (text : Text) (lines : List Text) :
    ofLines before (text :: lines) =
      ⟨text.trim, .ofNat (before + 1)⟩ :: ofLines (before + 1) lines := by
  simp [ofLines]

@[simp] theorem length_ofLines (before : Nat) (lines : List Text) :
    (ofLines before lines).length = lines.length := by
  simp [ofLines]

def ofText (text : Text) : Log :=
  ofLines 0 text.lines

@[simp] theorem length_ofText (text : Text) : (ofText text).length = text.lines.length := by
  simp [ofText]

end Log

end MakeRules
