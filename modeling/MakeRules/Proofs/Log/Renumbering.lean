import MakeRules.Proofs.Log.Append

/-! Logs that differ in the numbers of their lines alone.

No reading looks at the number of a record. So records that are numbered anew fall into the same
dispatches, with the new numbers in them.
-/

set_option autoImplicit false

namespace MakeRules

/-- The sum of two numbers, written with the smaller of their exponents. -/
def Decimal.plus (left right : Decimal) : Decimal :=
  let exponent := min left.exponent right.exponent
  let scaled (d : Decimal) : Int := d.significand * Int.pow 10 (d.exponent - exponent).toNat
  { significand := scaled left + scaled right, exponent }

theorem Decimal.ofNat_plus_ofNat (left right : Nat) :
    (ofNat left).plus (ofNat right) = ofNat (left + right) := by
  simp [plus, ofNat, ofInt, Int.pow]

section

variable (number : Decimal → Decimal)

def Record.renumber (record : Record) : Record :=
  { record with line := number record.line }

def DirectoryChange.renumber (change : DirectoryChange) : DirectoryChange :=
  { change with record := change.record.renumber number }

def Site.renumber (site : Site) : Site where
  marker := site.marker.renumber number
  change := site.change.renumber number
  notices := site.notices.map (Record.renumber number)
  command := site.command.renumber number

def Step.renumber : Step → Step
  | .compileC site files => .compileC (site.renumber number) files
  | .swiftDriver site invocation mapPath => .swiftDriver (site.renumber number) invocation mapPath
  | .swiftCompile site command files => .swiftCompile (site.renumber number) command files
  | .link site output fileList => .link (site.renumber number) output fileList
  | .postLink command => .postLink (command.renumber number)

def StepFault.renumber : StepFault → StepFault
  | .pairMismatch site sources objects => .pairMismatch (site.renumber number) sources objects
  | fault => fault

def Outcome.renumber : Outcome → Outcome
  | .unclaimed => .unclaimed
  | .skipped kind fault => .skipped kind (fault.renumber number)
  | .step found => .step (found.renumber number)

def Dispatch.renumber (dispatch : Dispatch) : Dispatch where
  record := dispatch.record.renumber number
  outcome := dispatch.outcome.renumber number

end

section

variable (number : Decimal → Decimal) (kind : StepKind) (record marker : Record) (behind : Log)

theorem DirectoryChange.ofRecord?_renumber :
    ofRecord? (record.renumber number) = (ofRecord? record).map (renumber number) := by
  rw [ofRecord?, ofRecord?, Option.map_map]
  rfl

theorem Site.read_renumber :
    read kind (marker.renumber number) (behind.map (Record.renumber number)) =
      (read kind marker behind).map (renumber number) := by
  cases behind with
  | nil => rfl
  | cons record rest =>
    simp only [read, List.map_cons, DirectoryChange.ofRecord?_renumber]
    cases DirectoryChange.ofRecord? record with
    | none => rfl
    | some change =>
      have passes : (fun record : Record => kind.passes record.text) ∘ Record.renumber number =
        fun record => kind.passes record.text := rfl
      simp only [Option.map_some, List.takeWhile_map, List.dropWhile_map, passes]
      cases rest.dropWhile (kind.passes ·.text) with
      | nil => rfl
      | cons command _ =>
        have accepts : kind.acceptsCommand (command.renumber number).text =
          kind.acceptsCommand command.text := rfl
        simp only [List.map_cons, accepts]
        split <;> rfl

/-- How the reading of a step ends does not depend on the numbers. -/
theorem Step.ofRead_renumber :
    Outcome.ofRead kind (read kind (marker.renumber number) (behind.map (Record.renumber number))) =
      (Outcome.ofRead kind (read kind marker behind)).renumber number := by
  have paths : markerPaths (marker.renumber number) = markerPaths marker := rfl
  have reads := Site.read_renumber number kind marker behind
  have fails {fault : StepFault} := @Site.read_eq_error kind marker behind fault
  simp only [read, reads]
  generalize Site.read kind marker behind = result at fails
  cases result with
  | ok site =>
    cases kind with
    | compileC | link =>
      simp only [readWith, paths]
      split <;> rfl
    | swiftCompile =>
      have command : (site.renumber number).command.text = site.command.text := rfl
      simp only [readWith, Except.map, bind, Except.bind, command]
      split <;> rfl
    | swiftDriver | postLink => rfl
  | error fault =>
    have same : fault.renumber number = fault := by
      rcases fails rfl with rfl | rfl <;> rfl
    cases kind with
    | compileC | link =>
      simp only [readWith, paths]
      split
      · exact congrArg _ same.symm
      · rfl
    | swiftDriver | swiftCompile => exact congrArg _ same.symm
    | postLink => rfl

theorem classify_renumber :
    classify (record.renumber number) (behind.map (Record.renumber number)) =
      (classify record behind).renumber number := by
  have text : (record.renumber number).text = record.text := rfl
  unfold classify
  rw [text]
  cases StepKind.ofText? record.text with
  | none => rfl
  | some kind => exact Step.ofRead_renumber number kind record behind

theorem Outcome.taken_renumber (outcome : Outcome) :
    (outcome.renumber number).taken = outcome.taken.map (Record.renumber number) := by
  cases outcome with
  | unclaimed => rfl
  | skipped kind fault =>
    cases fault with
    | pairMismatch => simp [renumber, StepFault.renumber, taken, StepFault.taken, Site.behindMarker,
        Site.renumber, DirectoryChange.renumber]
    | _ => rfl
  | step found =>
    cases found with
    | postLink => rfl
    | _ => simp [renumber, Step.renumber, taken, Step.site?, Site.behindMarker, Site.renumber,
        DirectoryChange.renumber]

namespace Log

theorem dispatch_renumber (log : Log) :
    dispatch (log.map (Record.renumber number)) = log.dispatch.map (Dispatch.renumber number) := by
  induction log using dispatch_induction with
  | nil => rfl
  | cons record rest ih =>
    rw [List.map_cons, dispatch_cons, dispatch_cons, classify_renumber, Outcome.taken_renumber,
      List.length_map, ← List.map_drop, ih, List.map_cons]
    rfl

end Log

end

/-- Lines that stand behind others have greater numbers, and that is all. -/
theorem Log.map_renumber_ofLines (more before : Nat) (lines : List Text) :
    (ofLines before lines).map (Record.renumber (Decimal.plus (.ofNat more))) =
      ofLines (more + before) lines := by
  induction lines generalizing before with
  | nil => rfl
  | cons line lines ih =>
    rw [ofLines_cons, ofLines_cons, List.map_cons, ih, Record.renumber, Decimal.ofNat_plus_ofNat]
    rfl

end MakeRules
