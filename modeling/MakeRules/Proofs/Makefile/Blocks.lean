import MakeRules.Proofs.Makefile.Lines

/-! The blocks of a makefile: what it has on its lines for each rule.

The text of a makefile is that of its header, of its entries and of the aggregate rule, written
out here as make is to read them. A rule is a block that an empty line ends. Where no text of a
rule holds a line feed, blocks are told by their lines alone, and those that a reader finds in the
whole text are those of the rules.
-/

set_option autoImplicit false

namespace MakeRules

namespace Makefile

theorem cons_intercalate_space {first : Text} {others : List Text} :
    ' ' :: [' '].intercalate (first :: others) = (first :: others).flatMap (' ' :: ·) := by
  induction others generalizing first with
  | nil => simp
  | cons next others ih =>
    rw [List.intercalate_cons_cons, List.append_assoc, List.singleton_append, ih]
    rfl

theorem dependencyLine_eq (target : Text) (prerequisites : List Text) :
    dependencyLine target prerequisites = target ++ ':' :: prerequisites.flatMap (' ' :: ·) := by
  cases prerequisites with
  | nil => rfl
  | cons first others =>
    rw [← cons_intercalate_space]
    rfl

/-- A comment on a line of its own, or the block of a rule: the dependency line, the recipe behind
a tab, and an empty line. -/
def entryText : Entry → Text
  | .comment text => comment text ++ ['\n']
  | .rule rule =>
    rule.target ++ ':' :: rule.prerequisites.flatMap (' ' :: ·) ++ '\n' :: '\t' :: rule.recipe ++
      ['\n', '\n']

/-- The aggregate rule: the dependency line, and the lines of the recipe, each behind a tab. -/
def aggregateText (aggregate : Aggregate) : Text :=
  aggregate.target ++ ':' :: aggregate.prerequisites.flatMap (' ' :: ·) ++ '\n' ::
    aggregate.recipe.flatMap fun line => '\t' :: line ++ ['\n']

theorem flatMap_entryLines (entry : Entry) : (entryLines entry).flatMap (· ++ ['\n']) = entryText entry := by
  cases entry with
  | comment text => simp [entryLines, entryText]
  | rule rule => simp [entryLines, ruleLines, dependencyLine_eq, entryText]

theorem flatMap_aggregateLines (makefile : Makefile) :
    makefile.aggregateLines.flatMap (· ++ ['\n']) = aggregateText makefile.aggregate := by
  simp [aggregateLines, ruleLines, dependencyLine_eq, aggregateText, List.flatMap_map]

/-- The header: three comments, the default goal, and an empty line. -/
def headerText (header : Header) (goal : Text) : Text :=
  "# Makefile generated by logmake. Do not edit.\n# captured: ".toList ++ header.capturedAt.folded ++
    "\n# invocation: ".toList ++ header.invocation.folded ++
    "\n.DEFAULT_GOAL := ".toList ++ goal ++ "\n\n".toList

theorem title_append_capturedPrefix :
    "# Makefile generated by logmake. Do not edit.\n# captured: ".toList =
      title ++ '\n' :: capturedPrefix := by
  decide +kernel

theorem flatMap_headerLines (header : Header) (goal : Text) :
    (headerLines header goal).flatMap (· ++ ['\n']) = headerText header goal := by
  have invocation : "\n# invocation: ".toList = '\n' :: invocationPrefix := rfl
  have goalLine : "\n.DEFAULT_GOAL := ".toList = '\n' :: goalPrefix := rfl
  unfold headerText
  rw [title_append_capturedPrefix, invocation, goalLine]
  simp only [headerLines, Text.oneLine_eq_folded, List.flatMap_cons, List.flatMap_nil,
    List.append_assoc, List.cons_append, List.nil_append, List.append_nil]
  rfl

/-- The text of a makefile, as it is written out. -/
theorem render_eq_texts (makefile : Makefile) :
    makefile.render = headerText makefile.header makefile.aggregate.target ++
      makefile.entries.flatMap entryText ++ aggregateText makefile.aggregate := by
  rw [render, lines, List.flatMap_append, List.flatMap_append, flatMap_headerLines,
    flatMap_aggregateLines, List.flatMap_assoc]
  simp only [flatMap_entryLines]

/-- The blocks that are found among lines, each by its dependency line and its recipe. -/
def blocks : List Text → List (Text × Text)
  | dependency :: ('\t' :: recipe) :: [] :: rest => (dependency, recipe) :: blocks rest
  | _ :: rest => blocks rest
  | [] => []

/-- The lines would be the recipe and the end of a block, if another line stood in front. -/
def EndsBlock (lines : List Text) : Prop :=
  ∃ recipe rest, lines = ('\t' :: recipe) :: [] :: rest

theorem blocks_cons {line : Text} {rest : List Text} (apart : ¬EndsBlock rest) :
    blocks (line :: rest) = blocks rest := by
  rw [blocks]
  intro recipe more same
  exact apart ⟨recipe, more, same⟩

theorem blocks_eq_nil {lines : List Text} (full : [] ∉ lines) : blocks lines = [] := by
  fun_induction blocks lines with
  | case1 => simp at full
  | case2 _ rest _ ih => exact ih fun member => full (List.mem_cons_of_mem _ member)
  | case3 => rfl

theorem not_endsBlock_cons {line : Text} (other : line.head? ≠ some '\t') (rest : List Text) :
    ¬EndsBlock (line :: rest) := by
  rintro ⟨recipe, more, same⟩
  obtain ⟨rfl, -⟩ := List.cons.inj same
  exact other rfl

theorem not_endsBlock_cons_cons (line : Text) {next : Text} (some_char : next ≠ [])
    (rest : List Text) : ¬EndsBlock (line :: next :: rest) := by
  rintro ⟨recipe, more, same⟩
  obtain ⟨-, same⟩ := List.cons.inj same
  exact some_char (List.cons.inj same).1

theorem head?_comment (text : Text) : (comment text).head? = some '#' := by
  unfold comment
  dsimp only
  split <;> rfl

/-- Neither a comment nor a rule is the end of a block that what stands in front would begin. -/
theorem not_endsBlock_entryLines (entries : List Entry) {rest : List Text}
    (apart : ¬EndsBlock rest) : ¬EndsBlock (entries.flatMap entryLines ++ rest) := by
  cases entries with
  | nil => exact apart
  | cons entry others =>
    cases entry with
    | comment text =>
      refine not_endsBlock_cons ?_ _
      rw [head?_comment]
      decide
    | rule rule => exact not_endsBlock_cons_cons _ (List.cons_ne_nil _ _) _

/-- The blocks of entries are those of their rules. -/
theorem blocks_entryLines (entries : List Entry) {rest : List Text} (apart : ¬EndsBlock rest) :
    blocks (entries.flatMap entryLines ++ rest) =
      (entries.filterMap Entry.rule?).map (fun rule =>
        (dependencyLine rule.target rule.prerequisites, rule.recipe)) ++ blocks rest := by
  induction entries with
  | nil => rfl
  | cons entry others ih =>
    cases entry with
    | comment text =>
      refine (blocks_cons (not_endsBlock_entryLines others apart)).trans ?_
      rw [ih]
      rfl
    | rule rule =>
      change blocks (dependencyLine rule.target rule.prerequisites :: ('\t' :: rule.recipe) :: [] ::
        (others.flatMap entryLines ++ rest)) = _
      rw [blocks, ih]
      rfl

/-- No block begins where no line stands behind a tab. -/
theorem blocks_append {front rest : List Text} (other : ∀ line ∈ front, line.head? ≠ some '\t')
    (apart : ¬EndsBlock rest) : blocks (front ++ rest) = blocks rest := by
  induction front with
  | nil => rfl
  | cons line front ih =>
    rw [List.forall_mem_cons] at other
    have still : ¬EndsBlock (front ++ rest) := by
      cases front with
      | nil => exact apart
      | cons next front => exact not_endsBlock_cons (other.2 next List.mem_cons_self) _
    exact (blocks_cons still).trans (ih other.2)

theorem head?_ne_of_mem_headerLines {header : Header} {goal : Text} :
    ∀ line ∈ headerLines header goal, line.head? ≠ some '\t' := by
  have behind (beginning text : Text) (some_char : beginning ≠ [])
      (other : beginning.head? ≠ some '\t') : (beginning ++ text).head? ≠ some '\t' := by
    rwa [List.head?_append_of_ne_nil _ some_char]
  simp only [headerLines, List.forall_mem_cons]
  refine ⟨by decide, behind _ _ ?_ ?_, behind _ _ ?_ ?_, behind _ _ ?_ ?_, by decide,
    List.forall_mem_nil _⟩ <;> decide

/-- The blocks that are found in a text, whose lines all end in a line feed. -/
def readBlocks (text : Text) : List (Text × Text) :=
  blocks (Text.splitOn '\n' text).dropLast

/-- Where no text of a rule holds a line feed, the blocks of the text are those of the rules. -/
theorem readBlocks_render {makefile : Makefile}
    (closed : ∀ line ∈ makefile.aggregateLines, '\n' ∉ line)
    (onLines : ∀ rule ∈ makefile.rules, rule.IsOnLines) :
    readBlocks makefile.render = makefile.rules.map fun rule =>
      (rule.target ++ ':' :: rule.prerequisites.flatMap (' ' :: ·), rule.recipe) := by
  -- no line of the aggregate rule is empty, so it is no block, nor does it end one
  have full : [] ∉ makefile.aggregateLines := by simp [aggregateLines, ruleLines, dependencyLine_eq]
  have apart : ¬EndsBlock makefile.aggregateLines := by
    rintro ⟨recipe, rest, same⟩
    rw [same] at full
    simp at full
  rw [readBlocks, (splitOn_render_eq_iff closed).2 onLines, List.dropLast_concat]
  simp only [funext cutLines_singleton]
  rw [List.append_assoc, blocks_append head?_ne_of_mem_headerLines (not_endsBlock_entryLines _ apart),
    blocks_entryLines _ apart, blocks_eq_nil full, List.append_nil]
  simp only [dependencyLine_eq]
  rfl

-- with a line feed in a prerequisite, one rule is two blocks
example :
    let rule : Rule := {
      target := "a.o".toList
      prerequisites := ["x\n\ttrue\n\ny.o: z.swift".toList]
      workingDir := []
      recipe := "touch a.o".toList }
    readBlocks (render ⟨⟨[], []⟩, [.rule rule], ⟨"main".toList, [], []⟩⟩) =
      [("a.o: x".toList, "true".toList), ("y.o: z.swift".toList, "touch a.o".toList)] := by
  decide +kernel

end Makefile

end MakeRules
