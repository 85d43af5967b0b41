import MakeRules.Proofs.Log.Dispatch
import MakeRules.Proofs.Log.DirectoryChange
import MakeRules.Proofs.Log.Record
import MakeRules.Proofs.Rule.OfStep

/-! What a step says is taken from its records.

No text of a step has a character that none of its records has, so none has a line feed. The
objects of a step are taken from the records too, but for those that a file map names.
-/

set_option autoImplicit false

namespace MakeRules

namespace SwiftInvocation

theorem dropWrapper_subset (wrapper command : Text) : dropWrapper wrapper command ⊆ command := by
  unfold dropWrapper
  cases wrapped : command.behindWord? wrapper with
  | none => exact List.Subset.refl _
  | some arguments =>
    have inside := List.Subset.trans arguments.trimStart_subset (Text.subset_of_behindWord? wrapped)
    cases called : arguments.trimStart.behindWord? "--".toList with
    | none =>
      simp only [Option.bind_eq_bind, Option.bind_some, called]
      exact List.Subset.refl _
    | some rest =>
      simp only [Option.bind_eq_bind, Option.bind_some, called]
      exact List.Subset.trans rest.trimStart_subset
        (List.Subset.trans (Text.subset_of_behindWord? called) inside)

/-- The gap is put back or dropped, so all that is left comes from it or from the text. -/
theorem dropWordFrom_subset (word : Text) (taken : Nat) (gap text : Text) :
    dropWordFrom word taken gap text ⊆ gap ++ text := by
  fun_induction dropWordFrom word taken gap text <;> grind

theorem ofDriverLine_subset (line : Text) : ofDriverLine line ⊆ line :=
  List.Subset.trans (dropWordFrom_subset _ 0 [] _) (dropWrapper_subset _ line)

theorem ofCompileLine_subset (line : Text) : ofCompileLine line ⊆ line :=
  dropWrapper_subset _ line

end SwiftInvocation

/-- What the records of a dispatch say. -/
def Dispatch.text (dispatch : Dispatch) : Text :=
  dispatch.records.flatMap (·.text)

theorem subset_of_mem_markerPaths {marker : Record} {count : Nat} {path : Text}
    (member : path ∈ markerPaths marker count) : path ⊆ marker.text := by
  obtain ⟨word, among, rfl⟩ := List.mem_map.1 member
  exact subset_of_mem_wordValues
    (List.mem_map_of_mem (List.mem_of_mem_drop (List.mem_of_mem_take among)))

theorem mem_of_mem_sourceObjects {sources objects : List Text} {files : SourceObject}
    (member : files ∈ sourceObjects sources objects) :
    files.source ∈ sources ∧ files.object ∈ objects := by
  rw [sourceObjects, ← List.map_uncurry_zip_eq_zipWith] at member
  obtain ⟨⟨source, object⟩, paired, rfl⟩ := List.mem_map.1 member
  exact List.of_mem_zip paired

namespace Step

/-- Each text of the step is made of characters of a given one. A file map is not read for it. -/
structure IsDrawnFrom (text : Text) (step : Step) : Prop where
  directory : ∀ site, step.site? = some site → site.change.directory ⊆ text
  command : step.command ⊆ text
  output : ∀ output, step.output? = some output → output ⊆ text
  files : step.kind ≠ .swiftDriver → ∀ view, ∀ files ∈ step.objects view,
    files.source ⊆ text ∧ files.object ⊆ text

theorem exists_read_of_classify {record : Record} {behind : Log} {step : Step}
    (reads : classify record behind = .step step) :
    ∃ kind, Step.read kind record behind = .ok step := by
  unfold classify at reads
  split at reads
  · cases reads
  · next kind _ =>
    split at reads
    · next read =>
      obtain rfl := Outcome.step.inj reads
      exact ⟨kind, read⟩
    · cases reads

theorem isDrawnFrom_of_read {kind : StepKind} {marker : Record} {behind : Log} {step : Step}
    {text : Text} (reads : Step.read kind marker behind = .ok step) (marked : marker.text ⊆ text)
    (shown : ∀ site, step.site? = some site →
      site.change.record.text ⊆ text ∧ site.command.text ⊆ text) : step.IsDrawnFrom text := by
  have directory : ∀ site, step.site? = some site → site.change.directory ⊆ text := by
    intro site sited
    have stands := Site.isBehind_of_read ((Step.read_eq_ok reads).2 site sited)
    exact List.Subset.trans (DirectoryChange.directory_subset_of_ofRecord? stands.change)
      (shown site sited).1
  have shape := isRead_readWith (Site.read kind marker behind) kind marker
  rw [← Step.read, reads] at shape
  generalize Site.read kind marker behind = found at shape
  cases shape with
  | @compileC site object source paths =>
    refine ⟨directory, (shown site rfl).2, (fun _ linked => by cases linked),
      fun _ view files member => ?_⟩
    obtain rfl := List.mem_singleton.1 member
    have named : ∀ path ∈ [object, source], path ⊆ text := by
      rw [← paths]
      exact fun path among => List.Subset.trans (subset_of_mem_markerPaths among) marked
    exact ⟨named source (by simp), named object (by simp)⟩
  | @swiftDriver site _ call =>
    have inside := List.Subset.trans (SwiftInvocation.ofDriverLine_subset site.command.text)
      (shown site rfl).2
    rw [← call] at inside
    exact ⟨directory, inside, (fun _ linked => by cases linked), fun other => absurd rfl other⟩
  | @swiftCompile site _ _ _ call primary output _ =>
    have inside := List.Subset.trans (SwiftInvocation.ofCompileLine_subset site.command.text)
      (shown site rfl).2
    rw [← call] at inside
    refine ⟨directory, inside, (fun _ linked => by cases linked),
      fun _ view files member => ?_⟩
    obtain ⟨source, object⟩ := mem_of_mem_sourceObjects member
    rw [primary] at source
    rw [output] at object
    exact ⟨List.Subset.trans (subset_of_mem_optionValues source) inside,
      List.Subset.trans (subset_of_mem_optionValues object) inside⟩
  | @link site output paths =>
    refine ⟨directory, (shown site rfl).2, fun _ same => ?_, (fun _ _ _ made => by cases made)⟩
    have among : output ∈ markerPaths marker 1 := by simp [paths]
    rw [← Option.some.inj same]
    exact List.Subset.trans (subset_of_mem_markerPaths among) marked
  | postLink =>
    exact ⟨directory, marked, (fun _ linked => by cases linked),
      (fun _ _ _ made => by cases made)⟩

end Step

theorem Log.isDrawnFrom_of_mem_dispatch {log : Log} {dispatch : Dispatch} {step : Step}
    (member : dispatch ∈ log.dispatch) (outcome : dispatch.outcome = .step step) :
    step.IsDrawnFrom dispatch.text := by
  have inside : ∀ record ∈ dispatch.records, record.text ⊆ dispatch.text :=
    fun record shown c member => List.mem_flatMap.2 ⟨record, shown, member⟩
  obtain ⟨behind, same, _⟩ := exists_behind_of_mem_dispatch member
  obtain ⟨kind, reads⟩ := Step.exists_read_of_classify (same.symm.trans outcome)
  apply Step.isDrawnFrom_of_read reads
  · exact inside _ List.mem_cons_self
  · intro site sited
    have taken : dispatch.outcome.taken = site.behindMarker := by
      rw [outcome, Outcome.taken, sited]
      rfl
    have shown : ∀ record ∈ site.behindMarker, record ∈ dispatch.records := by
      rw [← taken]
      exact fun record member => List.mem_cons_of_mem _ member
    exact ⟨inside _ (shown _ (by simp [Site.behindMarker])),
      inside _ (shown _ (by simp [Site.behindMarker]))⟩

/-- No text that the step takes from its records holds a line feed. -/
structure Step.IsOnLines (step : Step) : Prop where
  directory : ∀ site, step.site? = some site → '\n' ∉ site.change.directory
  command : '\n' ∉ step.command
  output : ∀ output, step.output? = some output → '\n' ∉ output
  files : step.kind ≠ .swiftDriver → ∀ view, ∀ files ∈ step.objects view,
    '\n' ∉ files.source ∧ '\n' ∉ files.object

theorem Step.IsDrawnFrom.isOnLines {text : Text} {step : Step} (drawn : step.IsDrawnFrom text)
    (whole : '\n' ∉ text) : step.IsOnLines where
  directory := fun site sited inside => whole (drawn.directory site sited inside)
  command := fun inside => whole (drawn.command inside)
  output := fun output linked inside => whole (drawn.output output linked inside)
  files := by
    intro other view files made
    obtain ⟨source, object⟩ := drawn.files other view files made
    exact ⟨fun inside => whole (source inside), fun inside => whole (object inside)⟩

theorem Log.isOnLines_of_mem_dispatch {text : Text} {dispatch : Dispatch} {step : Step}
    (member : dispatch ∈ (Log.ofText text).dispatch) (outcome : dispatch.outcome = .step step) :
    step.IsOnLines := by
  apply (isDrawnFrom_of_mem_dispatch member outcome).isOnLines
  intro inside
  obtain ⟨record, shown, inside⟩ := List.mem_flatMap.1 inside
  exact Log.lf_not_mem_of_mem_ofText ((Log.records_isInfix member).subset shown) inside

end MakeRules
