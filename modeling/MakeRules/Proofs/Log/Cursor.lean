import MakeRules.Log.Cursor
import MakeRules.Proofs.Log.Record
import Mathlib.Data.List.TakeWhile

/-! Where a cursor stands, and what lies ahead of it there.

A position is the number of records before it. So what lies ahead of a cursor is what stands in its
log from the cursor's position on, and a cursor is known by its log and its position.
-/

set_option autoImplicit false

namespace MakeRules

section

variable {α : Type} {holds : α → Bool} {l : List α} {a : α}

theorem drop_length_takeWhile (holds : α → Bool) (l : List α) :
    l.drop (l.takeWhile holds).length = l.dropWhile holds := by
  have parts := List.takeWhile_append_dropWhile (p := holds) (l := l)
  calc l.drop (l.takeWhile holds).length
      = (l.takeWhile holds ++ l.dropWhile holds).drop (l.takeWhile holds).length := by rw [parts]
    _ = l.dropWhile holds := List.drop_left

theorem holds_of_lt_length_takeWhile {place : Nat} (before : place < (l.takeWhile holds).length)
    (shown : l[place]? = some a) : holds a = true := by
  have same := List.prefix_iff_getElem?.1 (List.takeWhile_prefix holds) place before
  cases shown.symm.trans same
  exact List.mem_takeWhile_imp (List.getElem_mem before)

theorem not_holds_of_getElem?_length_takeWhile (shown : l[(l.takeWhile holds).length]? = some a) :
    holds a = false := by
  have stops := List.head?_dropWhile_not holds l
  rw [← drop_length_takeWhile, List.head?_drop, shown] at stops
  exact stops

end

namespace Cursor

theorem eq_of_ahead_eq {left right : Cursor} (log : left.log = right.log)
    (ahead : left.ahead = right.ahead) : left = right := by
  cases left
  cases right
  simp_all

variable (cursor : Cursor)

@[simp] theorem log_skip (count : Nat) : (cursor.skip count).log = cursor.log :=
  rfl

@[simp] theorem ahead_skip (count : Nat) : (cursor.skip count).ahead = cursor.ahead.drop count :=
  rfl

@[simp] theorem skip_zero : cursor.skip 0 = cursor :=
  eq_of_ahead_eq rfl (List.drop_zero ..)

@[simp] theorem skip_skip (first second : Nat) :
    (cursor.skip first).skip second = cursor.skip (first + second) :=
  eq_of_ahead_eq rfl (by simp)

theorem mark_skip (count : Nat) :
    (cursor.skip count).mark = cursor.mark + min count cursor.ahead.length := by
  have within := cursor.ahead_suffix.length_le
  simp only [mark, log_skip, ahead_skip, List.length_drop]
  omega

theorem mark_add_length_ahead : cursor.mark + cursor.ahead.length = cursor.log.length := by
  have within := cursor.ahead_suffix.length_le
  rw [mark]
  omega

theorem ahead_eq_drop : cursor.ahead = cursor.log.drop cursor.mark :=
  List.suffix_iff_eq_drop.1 cursor.ahead_suffix

theorem getElem?_log (offset : Nat) : cursor.log[cursor.mark + offset]? = cursor.ahead[offset]? := by
  rw [ahead_eq_drop, List.getElem?_drop]

/-- A position is found again by the number of records before it. -/
theorem reset_mark {cursor other : Cursor} (same : other.log = cursor.log) :
    other.reset cursor.mark = cursor := by
  apply eq_of_ahead_eq
  · exact same
  · calc (other.reset cursor.mark).ahead
        = cursor.log.drop cursor.mark := by rw [← same]; rfl
      _ = cursor.ahead := cursor.ahead_eq_drop.symm

theorem next_skip_takeWhile (passes : Record → Bool) :
    (cursor.skip (cursor.ahead.takeWhile passes).length).next =
      ((cursor.ahead.dropWhile passes).head?,
        cursor.skip ((cursor.ahead.takeWhile passes).length + 1)) := by
  rw [next, ahead_skip, drop_length_takeWhile, skip_skip]

end Cursor

end MakeRules
