import MakeRules.Proofs.Step.Markers
import Mathlib.Data.List.Basic
import Mathlib.Data.List.TakeWhile

/-! What the reading of a step takes.

A site that is read stands directly behind its marker. What a record takes from
the records behind it are those of one site or none, and no marker is among them.
-/

set_option autoImplicit false

namespace MakeRules

section

variable {α : Type} {passes : α → Bool} {front : List α} {stop : α}

theorem takeWhile_append_cons (passed : ∀ a ∈ front, passes a = true) (stops : passes stop = false)
    (back : List α) : (front ++ stop :: back).takeWhile passes = front := by
  simp [List.takeWhile_append_of_pos passed, stops]

theorem dropWhile_append_cons (passed : ∀ a ∈ front, passes a = true) (stops : passes stop = false)
    (back : List α) : (front ++ stop :: back).dropWhile passes = stop :: back := by
  simp [List.dropWhile_append_of_pos passed, stops]

end

structure Site.IsBehind (kind : StepKind) (marker : Record) (behind : Log) (site : Site) :
    Prop where
  marker : site.marker = marker
  shown : site.behindMarker <+: behind
  change : DirectoryChange.ofRecord? site.change.record = some site.change
  notices : ∀ notice ∈ site.notices, kind.passes notice.text = true
  command_not_passed : kind.passes site.command.text = false
  command : kind.acceptsCommand site.command.text = true

namespace Site

variable {kind : StepKind} {marker : Record} {behind : Log} {site : Site}

theorem isBehind_of_read (reads : read kind marker behind = .ok site) :
    site.IsBehind kind marker behind := by
  unfold read at reads
  cases behind with
  | nil => cases reads
  | cons record rest =>
    cases found : DirectoryChange.ofRecord? record with
    | none => simp [found] at reads
    | some change =>
      have same := DirectoryChange.record_of_ofRecord? found
      have parts := List.takeWhile_append_dropWhile (p := (kind.passes ·.text)) (l := rest)
      cases others : rest.dropWhile (kind.passes ·.text) with
      | nil => simp [found, others] at reads
      | cons command after =>
        have stops := List.head_dropWhile_not (kind.passes ·.text) (l := rest) (by simp [others])
        simp only [found, others] at reads
        split at reads
        · next accepts =>
          obtain rfl := Except.ok.inj reads
          rw [others] at parts
          exact {
            marker := rfl
            shown := ⟨after, by simp [behindMarker, same, parts]⟩
            change := by rw [same, found]
            notices := fun notice member =>
              List.mem_takeWhile_imp (p := fun other : Record => kind.passes other.text) member
            command_not_passed := by simpa [others] using stops
            command := accepts }
        · cases reads

theorem read_of_isBehind (stands : site.IsBehind kind marker behind) :
    read kind marker behind = .ok site := by
  obtain ⟨rfl, ⟨after, rfl⟩, change, notices, stops, accepts⟩ := stands
  have passed := takeWhile_append_cons notices stops after
  have left := dropWhile_append_cons notices stops after
  simp [read, behindMarker, change, passed, left, accepts]

theorem read_eq_ok_iff : read kind marker behind = .ok site ↔ site.IsBehind kind marker behind :=
  ⟨isBehind_of_read, read_of_isBehind⟩

theorem read_eq_error {fault : StepFault} (fails : read kind marker behind = .error fault) :
    fault = .missingDirectoryChange ∨ fault = .missingCommand := by
  unfold read at fails
  split at fails
  · exact .inl (Except.error.inj fails).symm
  · split at fails
    · exact .inl (Except.error.inj fails).symm
    · split at fails
      · exact .inr (Except.error.inj fails).symm
      · split at fails
        · cases fails
        · exact .inr (Except.error.inj fails).symm

theorem IsBehind.not_isStepMarker (stands : site.IsBehind kind marker behind) {record : Record}
    (member : record ∈ site.behindMarker) : isStepMarker record.text = false := by
  simp only [behindMarker, List.mem_cons, List.mem_append, List.cons_append, List.not_mem_nil,
    or_false] at member
  rcases member with rfl | passed | rfl
  · exact DirectoryChange.not_isStepMarker stands.change
  · have passes := stands.notices record passed
    cases kind with
    | compileC =>
      rcases Bool.or_eq_true_iff.1 passes with blank | notice
      · rw [List.isEmpty_iff.1 blank, isStepMarker_nil]
      · exact isStepMarker_of_isResponseFileNotice notice
    | _ => cases passes
  · have accepts := stands.command
    simp only [StepKind.acceptsCommand, Bool.and_eq_true, Bool.not_eq_true'] at accepts
    exact accepts.1.2

/-- Only a compile step passes over records on the way to its command. -/
theorem IsBehind.notices_eq_nil (stands : site.IsBehind kind marker behind)
    (other : kind ≠ .compileC) : site.notices = [] := by
  apply List.eq_nil_iff_forall_not_mem.2
  intro notice member
  have passes := stands.notices notice member
  cases kind with
  | compileC => exact other rfl
  | _ => cases passes

end Site

namespace Outcome

/-- The site whose records belong to what a record begins. -/
def site? : Outcome → Option Site
  | .unclaimed => none
  | .skipped _ (.pairMismatch site _ _) => some site
  | .skipped _ _ => none
  | .step found => found.site?

def kind? : Outcome → Option StepKind
  | .unclaimed => none
  | .skipped kind _ => some kind
  | .step found => some found.kind

/-- What a record begins that marks a step of a kind. -/
def ofRead (kind : StepKind) : Except StepFault Step → Outcome
  | .ok found => .step found
  | .error fault => .skipped kind fault

theorem taken_eq (outcome : Outcome) :
    outcome.taken = (outcome.site?.map Site.behindMarker).getD [] := by
  unfold site?
  split <;> try rfl
  next fault _ => cases fault <;> first | rfl | simp_all

end Outcome

/-- How many paths the marker of a kind names. -/
def StepKind.pathCount : StepKind → Nat
  | .compileC => 2
  | .link => 1
  | _ => 0

/-- How the reading of a step ends, given how the reading of its site does. -/
inductive Step.IsRead (marker : Record) :
    StepKind → Except StepFault Site → Except StepFault Step → Prop where
  | malformed {kind : StepKind} {site : Except StepFault Site}
      (paths : (markerPaths marker kind.pathCount).length ≠ kind.pathCount) :
      IsRead marker kind site (.error (.malformedMarker kind.pathCount))
  | noSite {kind : StepKind} {fault : StepFault} (sited : kind ≠ .postLink)
      (paths : (markerPaths marker kind.pathCount).length = kind.pathCount) :
      IsRead marker kind (.error fault) (.error fault)
  | compileC {site : Site} {object source : Text} (paths : markerPaths marker 2 = [object, source]) :
      IsRead marker .compileC (.ok site) (.ok (.compileC site { source, object }))
  | swiftDriver {site : Site} {invocation : Text}
      (call : invocation = SwiftInvocation.ofDriverLine site.command.text) :
      IsRead marker .swiftDriver (.ok site) (.ok (.swiftDriver site invocation
        (SwiftInvocation.outputFileMapPath? site.command.text invocation)))
  | swiftCompile {site : Site} {command : Text} {sources objects : List Text}
      (call : command = SwiftInvocation.ofCompileLine site.command.text)
      (primary : sources = optionValues (splitWords command) "-primary-file".toList)
      (output : objects = optionValues (splitWords command) "-o".toList)
      (agree : sources.length = objects.length) :
      IsRead marker .swiftCompile (.ok site)
        (.ok (.swiftCompile site command (sourceObjects sources objects)))
  | mismatch {site : Site} {command : Text} {sources objects : List Text}
      (call : command = SwiftInvocation.ofCompileLine site.command.text)
      (primary : sources = optionValues (splitWords command) "-primary-file".toList)
      (output : objects = optionValues (splitWords command) "-o".toList)
      (differ : sources.length ≠ objects.length) :
      IsRead marker .swiftCompile (.ok site)
        (.error (.pairMismatch site sources.length objects.length))
  | link {site : Site} {output : Text} (paths : markerPaths marker 1 = [output]) :
      IsRead marker .link (.ok site) (.ok (.link site output (optionValue?
        (splitWords site.command.text) "-filelist".toList (some "-Xlinker".toList))))
  | postLink {site : Except StepFault Site} :
      IsRead marker .postLink site (.ok (.postLink marker))

theorem Step.isRead_readWith (site : Except StepFault Site) (kind : StepKind) (marker : Record) :
    IsRead marker kind site (readWith site kind marker) := by
  cases kind with
  | compileC =>
    simp only [readWith]
    split
    · next object source paths =>
      cases site with
      | ok site => exact .compileC paths
      | error fault => exact .noSite (by decide) (by simp [StepKind.pathCount, paths])
    · next others =>
      apply @IsRead.malformed marker .compileC site
      intro count
      obtain ⟨object, source, paths⟩ := List.length_eq_two.1 count
      exact others object source paths
  | swiftDriver =>
    cases site with
    | ok site => exact .swiftDriver rfl
    | error fault => exact .noSite (by decide) rfl
  | swiftCompile =>
    cases site with
    | ok site =>
      by_cases agree :
        (optionValues (splitWords (SwiftInvocation.ofCompileLine site.command.text))
          "-primary-file".toList).length =
        (optionValues (splitWords (SwiftInvocation.ofCompileLine site.command.text))
          "-o".toList).length
      · simp only [readWith, bind, Except.bind, agree]
        exact .swiftCompile rfl rfl rfl agree
      · simp only [readWith, bind, Except.bind, agree]
        exact .mismatch rfl rfl rfl agree
    | error fault => exact .noSite (by decide) rfl
  | link =>
    simp only [readWith]
    split
    · next output paths =>
      cases site with
      | ok site => exact .link paths
      | error fault => exact .noSite (by decide) (by simp [StepKind.pathCount, paths])
    · next others =>
      apply @IsRead.malformed marker .link site
      intro count
      obtain ⟨output, paths⟩ := List.length_eq_one_iff.1 count
      exact others output paths
  | postLink => exact .postLink

section

variable {kind : StepKind} {marker : Record} {behind : Log}

/-- A marker without its paths is at fault before its site is looked at, however that is read. -/
theorem Step.readWith_of_malformed {m : Type → Type} [Monad m] [MonadExceptOf StepFault m]
    (readSite : m Site) (paths : (markerPaths marker kind.pathCount).length ≠ kind.pathCount) :
    readWith readSite kind marker = throw (.malformedMarker kind.pathCount) := by
  cases kind with
  | compileC =>
    simp only [readWith]
    split
    · next named => simp [StepKind.pathCount, named] at paths
    · rfl
  | link =>
    simp only [readWith]
    split
    · next named => simp [StepKind.pathCount, named] at paths
    · rfl
  | _ => exact absurd (by simp [markerPaths, StepKind.pathCount]) paths

theorem Step.read_eq_ok {step : Step} (reads : read kind marker behind = .ok step) :
    step.kind = kind ∧ ∀ site, step.site? = some site → Site.read kind marker behind = .ok site := by
  have shape := isRead_readWith (Site.read kind marker behind) kind marker
  rw [← read, reads] at shape
  generalize Site.read kind marker behind = found at shape ⊢
  cases shape <;> simp [Step.kind, Step.site?]

theorem Step.read_eq_mismatch {site : Site} {sources objects : Nat}
    (fails : read kind marker behind = .error (.pairMismatch site sources objects)) :
    kind = .swiftCompile ∧ Site.read kind marker behind = .ok site := by
  have shape := isRead_readWith (Site.read kind marker behind) kind marker
  rw [← read, fails] at shape
  generalize found : Site.read kind marker behind = result at shape
  cases shape with
  | mismatch => exact ⟨rfl, rfl⟩
  | noSite => rcases Site.read_eq_error found with missing | missing <;> cases missing

end

theorem kind?_classify (record : Record) (behind : Log) :
    (classify record behind).kind? = StepKind.ofText? record.text := by
  unfold classify
  cases StepKind.ofText? record.text with
  | none => rfl
  | some kind =>
    cases reads : Step.read kind record behind with
    | ok step => simp [reads, Outcome.kind?, (Step.read_eq_ok reads).1]
    | error fault => simp [reads, Outcome.kind?]

theorem isBehind_of_site?_classify {record : Record} {behind : Log} {site : Site}
    (taken : (classify record behind).site? = some site) :
    ∃ kind, (classify record behind).kind? = some kind ∧ site.IsBehind kind record behind := by
  rw [kind?_classify]
  unfold classify at taken
  cases marks : StepKind.ofText? record.text with
  | none => simp [marks, Outcome.site?] at taken
  | some kind =>
    refine ⟨kind, rfl, Site.read_eq_ok_iff.1 ?_⟩
    cases reads : Step.read kind record behind with
    | ok step =>
      simp only [marks, reads, Outcome.site?] at taken
      exact (Step.read_eq_ok reads).2 site taken
    | error fault =>
      simp only [marks, reads] at taken
      cases fault with
      | pairMismatch found sources objects =>
        obtain rfl := Option.some.inj taken
        exact (Step.read_eq_mismatch reads).2
      | _ => cases taken

theorem kind_of_classify_mismatch {record : Record} {behind : Log} {kind : StepKind} {site : Site}
    {sources objects : Nat}
    (skips : classify record behind = .skipped kind (.pairMismatch site sources objects)) :
    kind = .swiftCompile := by
  unfold classify at skips
  split at skips
  · cases skips
  · split at skips
    · cases skips
    · next fails =>
      obtain ⟨rfl, rfl⟩ := Outcome.skipped.inj skips
      exact (Step.read_eq_mismatch fails).1

end MakeRules
