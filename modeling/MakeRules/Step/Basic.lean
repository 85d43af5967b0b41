import MakeRules.Log.DirectoryChange

/-! Build steps as a log shows them.

A step begins at a marker record. Behind the marker all steps but a post-link
command have a directory change and a command, with which they form a site.
-/

set_option autoImplicit false

namespace MakeRules

/-- A source file and the object file made from it. -/
structure SourceObject where
  source : Text
  object : Text
  deriving DecidableEq, Repr

/-- The records that show a step, the directory change already read. Blank records and
notices may stand before the command. -/
structure Site where
  marker : Record
  change : DirectoryChange
  notices : List Record := []
  command : Record
  deriving DecidableEq, Repr

def Site.behindMarker (site : Site) : List Record :=
  site.change.record :: site.notices ++ [site.command]

inductive Step where
  /-- One compiler call for one source file. -/
  | compileC (site : Site) (files : SourceObject)
  /-- A driver call; a file map, if the call names one, says which objects it makes. -/
  | swiftDriver (site : Site) (invocation : Text) (mapPath : Option Text)
  /-- A compiler call for several source files. -/
  | swiftCompile (site : Site) (command : Text) (files : List SourceObject)
  /-- A linker call; a file list, if the call names one, says which objects it reads. -/
  | link (site : Site) (output : Text) (fileList : Option Text)
  /-- A command to be run after linking; the marker is the command. -/
  | postLink (command : Record)
  deriving DecidableEq, Repr

inductive StepKind where
  | compileC
  | swiftDriver
  | swiftCompile
  | link
  | postLink
  deriving DecidableEq, Repr

def Step.kind : Step → StepKind
  | .compileC .. => .compileC
  | .swiftDriver .. => .swiftDriver
  | .swiftCompile .. => .swiftCompile
  | .link .. => .link
  | .postLink .. => .postLink

def Step.site? : Step → Option Site
  | .compileC site _ => some site
  | .swiftDriver site _ _ => some site
  | .swiftCompile site _ _ => some site
  | .link site _ _ => some site
  | .postLink _ => none

namespace StepKind

def all : List StepKind :=
  [.compileC, .swiftDriver, .swiftCompile, .link, .postLink]

theorem mem_all (kind : StepKind) : kind ∈ all := by
  cases kind <;> decide

/-- The words with which a marker of the kind begins. -/
def markerWords : StepKind → List Text
  | .compileC => ["CompileC".toList]
  | .swiftDriver =>
    ["SwiftDriver".toList, "SwiftDriver\\ Compilation".toList, "CompileSwiftSources".toList]
  | .swiftCompile => ["CompileSwift".toList, "SwiftCompile".toList]
  | .link => ["Ld".toList]
  | .postLink => ["/usr/bin/codesign".toList, "/usr/bin/touch".toList]

def isMarker (kind : StepKind) (text : Text) : Bool :=
  kind.markerWords.any fun word => (text.behindWord? word).isSome

/-- The name of the kind in diagnostics. -/
def title (kind : StepKind) : Text :=
  kind.markerWords.headD []

/-- The first kind in an order of which a text marks a step. -/
def firstOf (order : List StepKind) (text : Text) : Option StepKind :=
  order.find? (·.isMarker text)

def ofText? (text : Text) : Option StepKind :=
  firstOf all text

end StepKind

def isStepMarker (text : Text) : Bool :=
  (StepKind.ofText? text).isSome

end MakeRules
