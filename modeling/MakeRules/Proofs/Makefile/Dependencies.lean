import MakeRules.Proofs.Escape.Decoding
import MakeRules.Proofs.Makefile.Lines
import Mathlib.Data.List.TakeWhile

/-! Dependency lines, as make reads them.

A comment begins at the first `#` that no backslash stands before, and the target ends at the first
colon with a blank or nothing behind it. The paths of a rule are read back from its line if and
only if none holds a line feed or such a `#`, and the target no colon before a tab.
-/

set_option autoImplicit false

namespace MakeRules

/-- Each `#` of the text stands directly behind a backslash. -/
def Text.HashesGuarded (text : Text) : Prop :=
  ∀ before after, text = before ++ '#' :: after → before.GoesOn

namespace Makefile

/-- The text up to its end or to the first `#` without a backslash before it. The flag says whether
one stands before the text. -/
def uncommentedFrom : Bool → Text → Text
  | _, [] => []
  | guarded, c :: rest =>
    if c = '#' ∧ guarded = false then [] else c :: uncommentedFrom (c == '\\') rest

/-- What make reads of the first line of a text: its comment is left out. -/
def readLine (text : Text) : Text :=
  uncommentedFrom false (text.takeWhile (· != '\n'))

/-- The target of a line, and what stands behind the separator: the first colon with a blank or
nothing behind it, and that blank. -/
def splitTarget? : Text → Option (Text × Text)
  | [] => none
  | c :: rest =>
    if c = ':' ∧ rest.head?.all isWordBreak then some ([], rest.tail)
    else (splitTarget? rest).map fun (target, behind) => (c :: target, behind)

/-- The dependency line of a rule at the front of a text is read as it is meant. -/
structure IsRead (rule : Rule) (text : Text) : Prop where
  uncommented : readLine text = dependencyLine rule.target rule.prerequisites
  split : splitTarget? (readLine text) = some (rule.target, [' '].intercalate rule.prerequisites)

section

variable {guarded : Bool}

theorem uncommentedFrom_cons_eq_self_iff {c : Char} {rest : Text} :
    uncommentedFrom guarded (c :: rest) = c :: rest ↔
      (c = '#' → guarded = true) ∧ uncommentedFrom (c == '\\') rest = rest := by
  rw [uncommentedFrom]
  by_cases comment : c = '#' ∧ guarded = false
  · simp [comment]
  · have plain : c = '#' → guarded = true := by simpa using comment
    rw [if_neg comment, List.cons.injEq, and_iff_right rfl, and_iff_right plain]

theorem uncommentedFrom_subset (guarded : Bool) (text : Text) :
    uncommentedFrom guarded text ⊆ text := by
  fun_induction uncommentedFrom guarded text <;> grind

theorem uncommentedFrom_eq_self_iff {text : Text} : uncommentedFrom guarded text = text ↔
    ∀ before after, text = before ++ '#' :: after →
      before.GoesOn ∨ before = [] ∧ guarded = true := by
  induction text generalizing guarded with
  | nil => simp [uncommentedFrom]
  | cons c rest ih =>
    rw [uncommentedFrom_cons_eq_self_iff, ih]
    -- a sign at the front asks for the flag, and one behind `c` for `c`
    constructor
    · rintro ⟨first, later⟩ before after split
      cases before with
      | nil => exact .inr ⟨rfl, first (List.cons.inj split).1⟩
      | cons d before =>
        obtain ⟨rfl, behind⟩ := List.cons.inj split
        left
        rcases later before after behind with goesOn | ⟨rfl, slash⟩
        · exact (Text.goesOn_cons_of_ne_nil c (by rintro rfl; cases goesOn)).2 goesOn
        · rw [eq_of_beq slash]
          rfl
    · intro all
      refine ⟨fun sign => ?_, fun before after behind => ?_⟩
      · rcases all [] rest (by rw [sign]; rfl) with goesOn | ⟨_, same⟩
        · cases goesOn
        · exact same
      · rcases all (c :: before) after (by rw [behind]; rfl) with goesOn | ⟨none, _⟩
        · cases before with
          | nil => exact .inr ⟨rfl, beq_iff_eq.2 (Option.some.inj goesOn)⟩
          | cons d before =>
            exact .inl ((Text.goesOn_cons_of_ne_nil c (List.cons_ne_nil d before)).1 goesOn)
        · cases none

theorem uncommented_eq_self_iff {text : Text} :
    uncommentedFrom false text = text ↔ text.HashesGuarded := by
  simp [uncommentedFrom_eq_self_iff, Text.HashesGuarded]

theorem uncommentedFrom_append_cons_eq_self_iff {c : Char} (sign : c ≠ '#') (slash : c ≠ '\\')
    {front rest : Text} : uncommentedFrom guarded (front ++ c :: rest) = front ++ c :: rest ↔
      uncommentedFrom guarded front = front ∧ uncommentedFrom false rest = rest := by
  induction front generalizing guarded with
  | nil =>
    have stops : (c == '\\') = false := beq_eq_false_iff_ne.2 slash
    simp [uncommentedFrom, sign, stops]
  | cons d front ih =>
    rw [List.cons_append, uncommentedFrom_cons_eq_self_iff, uncommentedFrom_cons_eq_self_iff, ih,
      and_assoc]

theorem uncommentedFrom_makeTarget_eq_self_iff {path : Text} :
    uncommentedFrom guarded (Escape.makeTarget path) = Escape.makeTarget path ↔
      uncommentedFrom guarded path = path := by
  induction path generalizing guarded with
  | nil => rfl
  | cons c path ih =>
    rw [Escape.makeTarget_cons, uncommentedFrom_cons_eq_self_iff, ← ih, Escape.targetChar]
    split
    · next dollar => simp [dollar, uncommentedFrom_cons_eq_self_iff]
    · split
      · next written => rcases written with rfl | rfl <;> simp [uncommentedFrom_cons_eq_self_iff]
      · rw [List.singleton_append, uncommentedFrom_cons_eq_self_iff]

end

/-- A colon and what stands behind it, with the blank between them if there is one. -/
theorem exists_dependencyLine_eq (target : Text) (prerequisites : List Text) :
    ∃ rest, dependencyLine target prerequisites = target ++ ':' :: rest ∧
      rest.head?.all isWordBreak = true ∧ rest.tail = [' '].intercalate prerequisites := by
  unfold dependencyLine
  split
  · next none =>
    rw [List.isEmpty_iff.1 none]
    exact ⟨[], rfl, rfl, rfl⟩
  · exact ⟨' ' :: [' '].intercalate prerequisites, rfl, rfl, rfl⟩

theorem colon_prefix_iff {c d : Char} {text : Text} :
    [':', c] <+: d :: text ↔ d = ':' ∧ text.head? = some c := by
  cases text <;> simp [List.cons_prefix_cons, eq_comm]

theorem splitTarget?_append_iff {target rest : Text} (ends : rest.head?.all isWordBreak = true) :
    splitTarget? (target ++ ':' :: rest) = some (target, rest.tail) ↔
      ∀ c, isWordBreak c = true → ¬[':', c] <:+: target := by
  induction target with
  | nil => simp [splitTarget?, ends]
  | cons d target ih =>
    rw [List.cons_append, splitTarget?]
    by_cases early : d = ':' ∧ (target ++ ':' :: rest).head?.all isWordBreak = true
    · rw [if_pos early]
      obtain ⟨rfl, blank⟩ := early
      refine iff_of_false (by simp) fun none => ?_
      cases target with
      | nil => cases blank
      | cons c target => exact none c blank (colon_prefix_iff.2 ⟨rfl, rfl⟩).isInfix
    · -- nothing ends here, so all depends on the rest of the target
      have starts : ∀ c, isWordBreak c = true → ¬[':', c] <+: d :: target := by
        intro c blank begins
        obtain ⟨colon, next⟩ := colon_prefix_iff.1 begins
        exact early ⟨colon, by simp [next, blank]⟩
      have later : (splitTarget? (target ++ ':' :: rest)).map
          (fun (target, behind) => (d :: target, behind)) = some (d :: target, rest.tail) ↔
            splitTarget? (target ++ ':' :: rest) = some (target, rest.tail) := by
        simp [Option.map_eq_some_iff]
      rw [if_neg early, later, ih]
      refine forall_congr' fun c => forall_congr' fun blank => ?_
      rw [List.infix_cons_iff, not_or, and_iff_right (starts c blank)]

section

variable {path : Text} {paths : List Text}

theorem head?_makeTarget_eq_iff {c : Char} (blank : isWordBreak c = true) :
    (Escape.makeTarget path).head? = some c ↔ c = '\t' ∧ path.head? = some '\t' := by
  cases path with
  | nil => simp
  | cons d path =>
    rw [Escape.makeTarget_cons, Escape.targetChar]
    have options : c = ' ' ∨ c = '\t' := by simpa [isWordBreak] using blank
    split
    · next dollar => rcases options with rfl | rfl <;> simp [dollar]
    · split
      · next written => rcases options with rfl | rfl <;> rcases written with rfl | rfl <;> simp
      · next other =>
        rcases options with rfl | rfl
        · simpa using fun isSpace => other (.inr isSpace)
        · simp

/-- A space is written behind a backslash, so only a tab can end the target early. -/
theorem infix_colon_makeTarget_iff {c : Char} (blank : isWordBreak c = true) :
    [':', c] <:+: Escape.makeTarget path ↔ c = '\t' ∧ [':', '\t'] <:+: path := by
  induction path with
  | nil => simp
  | cons d path ih =>
    rw [Escape.makeTarget_cons, Escape.targetChar]
    split
    · next dollar => simp [List.infix_cons_iff, dollar, ih]
    · split
      · next written =>
        rcases written with rfl | rfl <;> simp [List.infix_cons_iff, ih]
      · rw [List.singleton_append, List.infix_cons_iff, List.infix_cons_iff, colon_prefix_iff,
          colon_prefix_iff, head?_makeTarget_eq_iff blank, ih]
        tauto

theorem uncommented_intercalate_iff :
    uncommentedFrom false ([' '].intercalate (paths.map Escape.makeTarget)) =
        [' '].intercalate (paths.map Escape.makeTarget) ↔
      ∀ named ∈ paths, named.HashesGuarded := by
  induction paths with
  | nil => simp [uncommentedFrom]
  | cons first paths ih =>
    cases paths with
    | nil => simp [uncommentedFrom_makeTarget_eq_self_iff, uncommented_eq_self_iff]
    | cons second paths =>
      rw [List.map_cons, List.map_cons, List.intercalate_cons_cons, List.append_assoc,
        List.singleton_append, uncommentedFrom_append_cons_eq_self_iff (by decide) (by decide),
        uncommentedFrom_makeTarget_eq_self_iff, uncommented_eq_self_iff, ← List.map_cons, ih]
      exact List.forall_mem_cons.symm

theorem uncommented_iff_tail {rest : Text} (ends : rest.head?.all isWordBreak = true) :
    uncommentedFrom false rest = rest ↔ uncommentedFrom false rest.tail = rest.tail := by
  cases rest with
  | nil => rfl
  | cons c rest =>
    have blank : c = ' ' ∨ c = '\t' := by simpa [isWordBreak] using ends
    rw [uncommentedFrom_cons_eq_self_iff]
    rcases blank with rfl | rfl <;> simp

theorem uncommented_dependencyLine_iff :
    let line := dependencyLine (Escape.makeTarget path) (paths.map Escape.makeTarget)
    uncommentedFrom false line = line ↔ ∀ named ∈ path :: paths, named.HashesGuarded := by
  intro line
  obtain ⟨rest, shape, ends, tail⟩ :=
    exists_dependencyLine_eq (Escape.makeTarget path) (paths.map Escape.makeTarget)
  rw [show line = _ from shape, uncommentedFrom_append_cons_eq_self_iff (by decide) (by decide),
    uncommentedFrom_makeTarget_eq_self_iff, uncommented_eq_self_iff, uncommented_iff_tail ends, tail,
    uncommented_intercalate_iff, List.forall_mem_cons]

theorem readLine_append {line : Text} (whole : '\n' ∉ line) (behind : Text) :
    readLine (line ++ '\n' :: behind) = uncommentedFrom false line := by
  have passed : ∀ c ∈ line, (c != '\n') = true := by
    intro c member
    rw [bne_iff_ne]
    rintro rfl
    exact whole member
  simp [readLine, List.takeWhile_append_of_pos passed]

/-- What is read off the front of a text is on its first line. -/
theorem lf_not_mem_readLine (text : Text) : '\n' ∉ readLine text := by
  intro member
  simpa using List.mem_takeWhile_imp (uncommentedFrom_subset _ _ member)

theorem isRead_iff {rule : Rule} (target : rule.target = Escape.makeTarget path)
    (prerequisites : rule.prerequisites = paths.map Escape.makeTarget) (behind : Text) :
    IsRead rule (dependencyLine rule.target rule.prerequisites ++ '\n' :: behind) ↔
      (∀ named ∈ path :: paths, '\n' ∉ named ∧ named.HashesGuarded) ∧ ¬[':', '\t'] <:+: path := by
  have onLine : '\n' ∉ dependencyLine rule.target rule.prerequisites ↔
      ∀ named ∈ path :: paths, '\n' ∉ named := by
    rw [lf_not_mem_dependencyLine_iff, target, prerequisites, List.forall_mem_map,
      List.forall_mem_cons]
    simp only [Escape.mem_makeTarget_iff (c := '\n') (by decide)]
  have split : splitTarget? (dependencyLine rule.target rule.prerequisites) =
      some (rule.target, [' '].intercalate rule.prerequisites) ↔ ¬[':', '\t'] <:+: path := by
    obtain ⟨rest, shape, ends, tail⟩ := exists_dependencyLine_eq rule.target rule.prerequisites
    rw [shape, ← tail, splitTarget?_append_iff ends, target]
    constructor
    · intro none tab
      exact none '\t' rfl ((infix_colon_makeTarget_iff rfl).2 ⟨rfl, tab⟩)
    · intro none c blank inside
      exact none ((infix_colon_makeTarget_iff blank).1 inside).2
  have uncommented : uncommentedFrom false (dependencyLine rule.target rule.prerequisites) =
      dependencyLine rule.target rule.prerequisites ↔ ∀ named ∈ path :: paths, named.HashesGuarded := by
    rw [target, prerequisites]
    exact uncommented_dependencyLine_iff
  constructor
  · rintro ⟨whole, divided⟩
    -- only a first line is read, and here it is all of the dependency line
    have line : '\n' ∉ dependencyLine rule.target rule.prerequisites :=
      whole ▸ lf_not_mem_readLine _
    rw [whole] at divided
    rw [readLine_append line] at whole
    exact ⟨fun named member => ⟨onLine.1 line named member, uncommented.1 whole named member⟩,
      split.1 divided⟩
  · rintro ⟨plain, none⟩
    have line := onLine.2 fun named member => (plain named member).1
    have whole := uncommented.2 fun named member => (plain named member).2
    rw [← readLine_append line behind] at whole
    refine ⟨whole, ?_⟩
    rw [whole]
    exact split.2 none

end

end Makefile

end MakeRules
