import MakeRules.Diagnostic
import MakeRules.Step.Basic
import MakeRules.Step.SwiftInvocation

/-! Reading the step that begins at a record.

The result says which records behind the marker belong to it. A step that
cannot be read takes none of them, unless only its files are at odds.
-/

set_option autoImplicit false

namespace MakeRules

inductive StepFault where
  /-- The marker lacks some of the paths that it should name. -/
  | malformedMarker (expected : Nat)
  | missingDirectoryChange
  | missingCommand
  /-- The compiler call does not name one object for each source. -/
  | pairMismatch (site : Site) (sources objects : Nat)
  deriving DecidableEq, Repr

/-- What a record begins. -/
inductive Outcome where
  | unclaimed
  /-- A step that is left out. -/
  | skipped (kind : StepKind) (fault : StepFault)
  | step (step : Step)
  deriving DecidableEq, Repr

namespace StepFault

def code : StepFault → DiagnosticCode
  | .malformedMarker _ => .malformedMarker
  | .missingDirectoryChange => .missingDirectoryChange
  | .missingCommand => .missingCommand
  | .pairMismatch .. => .primaryOutputMismatch

def message (kind : StepKind) : StepFault → Text
  | .malformedMarker expected =>
    let paths :=
      if expected = 1 then "an output path".toList else Text.ofNat expected ++ " paths".toList
    "Expected ".toList ++ paths ++ " after \"".toList ++ kind.title ++ "\"".toList
  | .missingDirectoryChange =>
    kind.title ++ " step is not followed by a directory change".toList
  | .missingCommand => kind.title ++ " step has no command line".toList
  | .pairMismatch _ sources objects =>
    "Swift frontend invocation has ".toList ++ Text.ofNat sources ++
      " -primary-file and ".toList ++ Text.ofNat objects ++ " -o options".toList

def blamed (marker : Record) : StepFault → Record
  | .pairMismatch site _ _ => site.command
  | _ => marker

/-- The records behind the marker that belong to the faulty step. -/
def taken : StepFault → List Record
  | .pairMismatch site _ _ => site.behindMarker
  | _ => []

end StepFault

/-- The records behind the marker that belong to what it begins. -/
def Outcome.taken : Outcome → List Record
  | .unclaimed => []
  | .skipped _ fault => fault.taken
  | .step found => (found.site?.map Site.behindMarker).getD []

/-- Whether a record says that a response file is in use. -/
def isResponseFileNotice (text : Text) : Bool :=
  "Using response file:".toList.isPrefixOf text

namespace StepKind

/-- Whether a record between the directory change and the command is passed over. -/
def passes (kind : StepKind) (text : Text) : Bool :=
  match kind with
  | .compileC => text.isEmpty || isResponseFileNotice text
  | _ => false

/-- Whether a record can be the command of a step. -/
def acceptsCommand (kind : StepKind) (text : Text) : Bool :=
  !text.isEmpty && !isStepMarker text && (kind != .swiftCompile || SwiftInvocation.isCompile text)

end StepKind

/-- Read the directory change and the command behind a marker. -/
def Site.read (kind : StepKind) (marker : Record) (behind : Log) : Except StepFault Site :=
  match behind with
  | [] => .error .missingDirectoryChange
  | record :: rest =>
    match DirectoryChange.ofRecord? record with
    | none => .error .missingDirectoryChange
    | some change =>
      let notices := rest.takeWhile (kind.passes ·.text)
      match rest.dropWhile (kind.passes ·.text) with
      | [] => .error .missingCommand
      | command :: _ =>
        if kind.acceptsCommand command.text then .ok { marker, change, notices, command }
        else .error .missingCommand

/-- The first paths that a marker names behind its word. -/
def markerPaths (marker : Record) (count : Nat) : List Text :=
  (((splitWords marker.text).drop 1).take count).map (·.value)

def sourceObjects (sources objects : List Text) : List SourceObject :=
  sources.zipWith SourceObject.mk objects

/-- Read the step of a kind that a record marks, by a way of reading its site. -/
def Step.readWith {m : Type → Type} [Monad m] [MonadExceptOf StepFault m] (readSite : m Site)
    (kind : StepKind) (marker : Record) : m Step := do
  match kind with
  | .compileC =>
    -- the marker comes before what follows it, and so does its fault
    let [object, source] := markerPaths marker 2 | throw (.malformedMarker 2)
    return .compileC (← readSite) { source, object }
  | .swiftDriver =>
    let site ← readSite
    let invocation := SwiftInvocation.ofDriverLine site.command.text
    return .swiftDriver site invocation
      (SwiftInvocation.outputFileMapPath? site.command.text invocation)
  | .swiftCompile =>
    let site ← readSite
    let command := SwiftInvocation.ofCompileLine site.command.text
    let sources := optionValues (splitWords command) "-primary-file".toList
    let objects := optionValues (splitWords command) "-o".toList
    if sources.length = objects.length then
      return .swiftCompile site command (sourceObjects sources objects)
    else throw (.pairMismatch site sources.length objects.length)
  | .link =>
    let [output] := markerPaths marker 1 | throw (.malformedMarker 1)
    let site ← readSite
    return .link site output
      (optionValue? (splitWords site.command.text) "-filelist".toList (some "-Xlinker".toList))
  | .postLink => return .postLink marker

def Step.read (kind : StepKind) (marker : Record) (behind : Log) : Except StepFault Step :=
  Step.readWith (Site.read kind marker behind) kind marker

def classify (record : Record) (behind : Log) : Outcome :=
  match StepKind.ofText? record.text with
  | none => .unclaimed
  | some kind =>
    match Step.read kind record behind with
    | .ok step => .step step
    | .error fault => .skipped kind fault

end MakeRules
