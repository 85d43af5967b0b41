import MakeRules.Log.Cursor
import MakeRules.Step.Classify

/-! Reading a step through a cursor.

The cursor stands behind the marker. A reading moves it over the records that it
looks at, and sets it back where the command is missing, so that what follows the
marker can be read once more.
-/

set_option autoImplicit false

namespace MakeRules

/-- A reading of records through a cursor, which stays where a failure leaves it. -/
abbrev StepReader := ExceptT StepFault (StateM Cursor)

/-- The next record for the command of a step. Only a compile step passes over others. -/
def Cursor.nextCommand (cursor : Cursor) : StepKind → Option Record × Cursor
  | .compileC => cursor.nextNonBlank isResponseFileNotice
  | _ => cursor.next

/-- Read the directory change behind a marker, and the command if it is accepted. -/
def Site.readerBy (accepts : Text → Bool) (kind : StepKind) (marker : Record) :
    StepReader Site := fun cursor =>
  match cursor.nextDirectoryChange with
  | (none, cursor) => (.error .missingDirectoryChange, cursor)
  | (some change, opened) =>
    match opened.nextCommand kind with
    | (none, closed) => (.error .missingCommand, closed.reset cursor.mark)
    | (some command, closed) =>
      if accepts command.text then
        let notices := opened.ahead.take (closed.mark - opened.mark - 1)
        (.ok { marker, change, notices, command }, closed)
      else (.error .missingCommand, closed.reset cursor.mark)

/-- Read the directory change and the command behind a marker. -/
def Site.reader (kind : StepKind) (marker : Record) : StepReader Site :=
  Site.readerBy kind.acceptsCommand kind marker

/-- Read the step of a kind that a record marks. -/
def Step.reader (kind : StepKind) (marker : Record) : StepReader Step :=
  Step.readWith (Site.reader kind marker) kind marker

/-- What a record begins, by a way to tell the kind that it marks and one to read the step; and where
the cursor stands then. -/
def Cursor.readOutcomeBy (kind? : Text → Option StepKind)
    (readStep : StepKind → Record → StepReader Step) (cursor : Cursor) (record : Record) :
    Outcome × Cursor :=
  match kind? record.text with
  | none => (.unclaimed, cursor)
  | some kind =>
    match readStep kind record cursor with
    | (.ok step, behind) => (.step step, behind)
    | (.error fault, behind) => (.skipped kind fault, behind)

/-- What a record begins, the cursor standing behind it; and where the cursor stands then. -/
def Cursor.readOutcome (cursor : Cursor) (record : Record) : Outcome × Cursor :=
  cursor.readOutcomeBy StepKind.ofText? Step.reader record

end MakeRules
