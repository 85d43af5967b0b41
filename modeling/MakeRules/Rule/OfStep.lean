import MakeRules.LinkFileList
import MakeRules.OutputFileMap

/-! The rules of a step.

A compile or driver step gives each object the rule that repeats the step's
command; a link step gives its output one; a command after linking becomes a
line of the aggregate recipe. A step whose files cannot be read is left out
with a diagnostic.
-/

set_option autoImplicit false

namespace MakeRules

/-- The rule that makes an object by running a command. The object is touched, since the
command may leave it as it is. -/
def Rule.ofObject (change : DirectoryChange) (command : Text) (files : SourceObject) : Rule where
  target := Escape.makeTarget files.object
  prerequisites := [Escape.makeTarget files.source]
  workingDir := change.directory
  recipe := change.recipePrefix ++ " && ".toList ++ Escape.dollar command ++
    " && touch ".toList ++ Escape.recipePath files.object

def Rule.ofLink (site : Site) (output : Text) (prerequisites : List Text) : Rule where
  target := Escape.makeTarget output
  prerequisites := prerequisites
  workingDir := site.change.directory
  recipe := site.change.recipePrefix ++ " && ".toList ++ Escape.dollar site.command.text

inductive FileFault where
  | mapOptionMissing
  | map (fault : OutputFileMap.Fault)
  /-- The link has no list; it is still linked, without prerequisites. -/
  | fileListOptionMissing (output : Text)
  | fileListUnreadable (path reason : Text)
  deriving DecidableEq, Repr

namespace FileFault

def code : FileFault → DiagnosticCode
  | .mapOptionMissing => .outputFileMapOptionMissing
  | .map fault => fault.code
  | .fileListOptionMissing _ => .linkFileListOptionMissing
  | .fileListUnreadable .. => .linkFileListUnreadable

def message : FileFault → Text
  | .mapOptionMissing => "Swift driver invocation has no -output-file-map option".toList
  | .map fault => fault.message
  | .fileListOptionMissing output =>
    "Link of ".toList ++ output ++
      " has no -filelist option; its objects are not tracked".toList
  | .fileListUnreadable path reason => LinkFileList.unreadableMessage path reason

def diagnostic (file : Text) (site : Site) (fault : FileFault) : Diagnostic where
  code := fault.code
  message := fault.message
  span := ⟨file, site.command.line⟩

end FileFault

/-- What a record adds to a translation, and the table afterwards. -/
structure Contribution where
  /-- The text repeated as a comment. -/
  echo : Option Text := none
  rules : List Rule := []
  /-- Lines for the aggregate recipe. -/
  recipe : List Text := []
  diagnostics : List Diagnostic := []
  table : RuleTable

namespace Contribution

def ofRules (table : RuleTable) (rules : List Rule) : Contribution where
  rules := table.newRules rules
  table := table.registerAll rules

/-- Add the rule of a link to a table. Its output is a product unless it is an object. -/
def ofLink (table : RuleTable) (site : Site) (output : Text) (prerequisites : List Text) :
    Contribution :=
  let rule := Rule.ofLink site output prerequisites
  let linked := table.register rule
  { rules := table.newRules [rule]
    table :=
      if isObjectFile output then linked else linked.addLinkedProduct (Escape.makeTarget output) }

/-- Leave a step out. -/
def ofFault (table : RuleTable) (file : Text) (site : Site) (fault : FileFault) :
    Contribution where
  diagnostics := [fault.diagnostic file site]
  table := table

end Contribution

/-- The rules that a step adds to a table, its files read through a view. -/
def Step.contribute (view : FileView) (file : Text) (table : RuleTable) : Step → Contribution
  | .compileC site files =>
    .ofRules table [Rule.ofObject site.change site.command.text files]
  | .swiftCompile site command files =>
    .ofRules table (files.map (Rule.ofObject site.change command))
  | .swiftDriver site _ none => .ofFault table file site .mapOptionMissing
  | .swiftDriver site invocation (some path) =>
    match OutputFileMap.read view (view.resolve site.change.directory path) with
    | .error fault => .ofFault table file site (.map fault)
    | .ok entries => .ofRules table (entries.map (Rule.ofObject site.change invocation))
  | .link site output none =>
    { Contribution.ofLink table site output [] with
      diagnostics := [(FileFault.fileListOptionMissing output).diagnostic file site] }
  | .link site output (some path) =>
    let path := view.resolve site.change.directory path
    match LinkFileList.read view path with
    | .error reason => .ofFault table file site (.fileListUnreadable path reason)
    | .ok paths => .ofLink table site output (LinkFileList.prerequisites table paths)
  | .postLink command => { recipe := [Escape.dollar command.text], table := table }

/-- The path of the file that a step reads, from a working directory. -/
def Step.fileRead? (directory : Text) : Step → Option Text
  | .swiftDriver site _ path =>
    path.map fun path => Path.resolve [directory, site.change.directory, path]
  | .link site _ path =>
    path.map fun path => Path.resolve [directory, site.change.directory, path]
  | _ => none

end MakeRules
