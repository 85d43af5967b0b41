import MakeRules.Makefile
import MakeRules.Rule.OfStep
import MakeRules.Step.Dispatch

/-! Translating a log into a makefile.

The records of the log are taken in order. Each one that is not part of a step
before it is repeated as a comment, and the rules of the step that it begins
follow the comment. A step that cannot be read is left out with a diagnostic;
translating never fails.
-/

set_option autoImplicit false

namespace MakeRules

def defaultAggregateTarget : Text := "main".toList

structure TranslationOptions where
  capturedAt : Text
  invocation : Text := []
  aggregateTarget : Text := defaultAggregateTarget
  /-- What diagnostics call the log. -/
  file : Text := Diagnostic.unnamedLog

/-- A makefile, the table whose rules it holds, and what is reported of its log. -/
structure Translation where
  makefile : Makefile
  table : RuleTable
  diagnostics : List Diagnostic

/-- What a record and its step add to a table. A blank record adds nothing. -/
def Dispatch.contribute (view : FileView) (file : Text) (table : RuleTable) (dispatch : Dispatch) :
    Contribution :=
  if dispatch.record.isBlank then { table }
  else
    let added :=
      match dispatch.outcome with
      | .step step => step.contribute view file table
      | _ => { table, diagnostics := dispatch.diagnostics file }
    { added with echo := some dispatch.record.text }

/-- What the records of a log add, each to the table that those before it leave. -/
def contributions (view : FileView) (file : Text) : RuleTable → List Dispatch → List Contribution
  | _, [] => []
  | table, dispatch :: rest =>
    let added := dispatch.contribute view file table
    added :: contributions view file added.table rest

/-- The paths of the files that the steps of a log read. -/
def Log.filesRead (directory : Text) (log : Log) : List Text :=
  log.dispatch.filterMap fun dispatch =>
    match dispatch.outcome with
    | .step step => step.fileRead? directory
    | _ => none

/-- The comment of a contribution, and its rules. -/
def Contribution.entries (added : Contribution) : List Makefile.Entry :=
  (added.echo.map .comment).toList ++ added.rules.map .rule

namespace Translation

/-- The translation that contributions add up to. -/
def ofContributions (options : TranslationOptions) (added : List Contribution) : Translation :=
  let table := (added.getLast?.map (·.table)).getD {}
  { makefile := {
      header := ⟨options.capturedAt, options.invocation⟩
      entries := added.flatMap (·.entries)
      aggregate := {
        target := options.aggregateTarget
        prerequisites := table.linkedProducts
        recipe := added.flatMap (·.recipe) } }
    table := table
    diagnostics := added.flatMap (·.diagnostics) }

def ofLog (view : FileView) (options : TranslationOptions) (log : Log) : Translation :=
  ofContributions options (contributions view options.file {} log.dispatch)

def ofText (view : FileView) (options : TranslationOptions) (text : Text) : Translation :=
  ofLog view options (Log.ofText text)

def text (translation : Translation) : Text :=
  translation.makefile.render

def rules (translation : Translation) : List Rule :=
  translation.table.rules

def linkedProducts (translation : Translation) : List Text :=
  translation.table.linkedProducts

end Translation

end MakeRules
