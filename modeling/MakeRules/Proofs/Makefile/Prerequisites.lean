import MakeRules.Proofs.Escape.Decoding
import MakeRules.Proofs.Makefile.Comments

/-! The prerequisites of a dependency line, cut apart again.

The spaces of a path are written behind backslashes, those between the paths are not. But a backslash
at the end of a path is written as it is, and then guards the space behind it. So the paths are read
back if and only if none but the last ends in a backslash.
-/

set_option autoImplicit false

namespace MakeRules.Makefile

open Escape

/-- The pieces of a text between the spaces that no backslash stands directly before. The flag says
whether one stands before the text. -/
def piecesFrom : Bool → Text → List Text
  | _, [] => [[]]
  | guarded, c :: rest =>
    if c = ' ' ∧ guarded = false then [] :: piecesFrom false rest
    else Text.consHead c (piecesFrom (c == '\\') rest)

/-- What stands between the bare spaces of a list of prerequisites. -/
def prerequisitePieces (listed : Text) : List Text :=
  piecesFrom false listed

theorem piecesFrom_ne_nil (guarded : Bool) (text : Text) : piecesFrom guarded text ≠ [] := by
  cases text with
  | nil => exact List.cons_ne_nil _ _
  | cons c rest =>
    rw [piecesFrom]
    split
    · exact List.cons_ne_nil _ _
    · exact Text.consHead_ne_nil c _

theorem foldr_consHead_cons (front piece : Text) (pieces : List Text) :
    front.foldr Text.consHead (piece :: pieces) = (front ++ piece) :: pieces := by
  induction front with
  | nil => rfl
  | cons c front ih => rw [List.foldr_cons, ih]; rfl

theorem piecesFrom_targetChar_append (guarded : Bool) (c : Char) (text : Text) :
    piecesFrom guarded (targetChar c ++ text) =
      (targetChar c).foldr Text.consHead (piecesFrom (c == '\\') text) := by
  unfold targetChar
  split
  · next dollar => simp [dollar, piecesFrom]
  · split
    · next written => rcases written with rfl | rfl <;> simp [piecesFrom]
    · next other =>
      have space : c ≠ ' ' := fun isSpace => other (.inr isSpace)
      simp [piecesFrom, space]

/-- No space of a path cuts its form, and the last character decides on the space behind it. -/
theorem piecesFrom_makeTarget_append (guarded : Bool) (path text : Text) :
    piecesFrom guarded (makeTarget path ++ text) =
      (makeTarget path).foldr Text.consHead
        (piecesFrom (path.getLast?.elim guarded (· == '\\')) text) := by
  induction path generalizing guarded with
  | nil => rfl
  | cons c path ih =>
    have last : path.getLast?.elim (c == '\\') (· == '\\') =
        (c :: path).getLast?.elim guarded (· == '\\') := by
      rw [List.getLast?_cons]
      cases path.getLast? <;> rfl
    rw [makeTarget_cons, List.append_assoc, piecesFrom_targetChar_append, ih, last,
      List.foldr_append]

theorem prerequisitePieces_makeTarget (path : Text) :
    prerequisitePieces (makeTarget path) = [makeTarget path] := by
  have whole := piecesFrom_makeTarget_append false path []
  rwa [List.append_nil, piecesFrom, foldr_consHead_cons, List.append_nil] at whole

section

variable {path : Text} (listed : Text)

theorem prerequisitePieces_of_not_goesOn (stops : ¬path.GoesOn) :
    prerequisitePieces (makeTarget path ++ ' ' :: listed) =
      makeTarget path :: prerequisitePieces listed := by
  have bare : path.getLast?.elim false (· == '\\') = false := by
    rw [Text.GoesOn] at stops
    cases last : path.getLast? <;> simp_all
  rw [prerequisitePieces, piecesFrom_makeTarget_append, bare, piecesFrom, if_pos ⟨rfl, rfl⟩,
    foldr_consHead_cons, List.append_nil]
  rfl

/-- The space is guarded, and joins two pieces to one. -/
theorem length_prerequisitePieces_of_goesOn (goesOn : path.GoesOn) :
    (prerequisitePieces (makeTarget path ++ ' ' :: listed)).length =
      (prerequisitePieces listed).length := by
  obtain ⟨piece, pieces, shape⟩ := List.exists_cons_of_ne_nil (piecesFrom_ne_nil false listed)
  rw [prerequisitePieces, piecesFrom_makeTarget_append, goesOn]
  simp [piecesFrom, shape, Text.consHead, foldr_consHead_cons, prerequisitePieces]

end

theorem intercalate_makeTarget_cons_cons (first second : Text) (others : List Text) :
    [' '].intercalate ((first :: second :: others).map makeTarget) =
      makeTarget first ++ ' ' :: [' '].intercalate ((second :: others).map makeTarget) := by
  rw [List.map_cons, List.map_cons, List.intercalate_cons_cons, List.append_assoc]
  rfl

theorem length_prerequisitePieces_le (first : Text) (others : List Text) :
    (prerequisitePieces ([' '].intercalate ((first :: others).map makeTarget))).length ≤
      (first :: others).length := by
  induction others generalizing first with
  | nil => simp [prerequisitePieces_makeTarget]
  | cons second others ih =>
    have later := ih second
    rw [intercalate_makeTarget_cons_cons]
    by_cases goesOn : first.GoesOn
    · rw [length_prerequisitePieces_of_goesOn _ goesOn]
      exact Nat.le_succ_of_le later
    · rw [prerequisitePieces_of_not_goesOn _ goesOn]
      exact Nat.succ_le_succ later

theorem map_ofMakeTarget_prerequisitePieces_iff (first : Text) (others : List Text) :
    (prerequisitePieces ([' '].intercalate ((first :: others).map makeTarget))).map ofMakeTarget =
        first :: others ↔
      ∀ path ∈ (first :: others).dropLast, ¬path.GoesOn := by
  induction others generalizing first with
  | nil => simp [prerequisitePieces_makeTarget, ofMakeTarget_makeTarget]
  | cons second others ih =>
    rw [intercalate_makeTarget_cons_cons, List.dropLast_cons_cons, List.forall_mem_cons, ← ih]
    by_cases goesOn : first.GoesOn
    · -- there are fewer pieces than paths
      refine iff_of_false (fun same => ?_) fun all => all.1 goesOn
      have few := length_prerequisitePieces_le second others
      have lengths := congrArg List.length same
      rw [List.length_map, length_prerequisitePieces_of_goesOn _ goesOn] at lengths
      simp only [List.length_cons] at few lengths
      omega
    · rw [prerequisitePieces_of_not_goesOn _ goesOn, List.map_cons, ofMakeTarget_makeTarget,
        List.cons.injEq, and_iff_right rfl, and_iff_right goesOn]

/-- The dependency line of a rule with prerequisites is the form of its target, a colon and a space,
and a list of forms. The paths are read back from that list if and only if none but the last ends in
a backslash. -/
theorem prerequisites_read_back_iff (target first : Text) (others recipe : List Text) :
    ∃ listed,
      ruleLines (makeTarget target) ((first :: others).map makeTarget) recipe =
          (makeTarget target ++ ": ".toList ++ listed) :: recipe.map ('\t' :: ·) ∧
        ((prerequisitePieces listed).map ofMakeTarget = first :: others ↔
          ∀ path ∈ (first :: others).dropLast, ¬path.GoesOn) := by
  refine ⟨[' '].intercalate ((first :: others).map makeTarget), ?_,
    map_ofMakeTarget_prerequisitePieces_iff first others⟩
  simp [ruleLines, dependencyLine]

-- the space behind the first path is taken for one of its own
example : (prerequisitePieces "a\\ b".toList).map ofMakeTarget = ["a b".toList] := by decide

end MakeRules.Makefile
