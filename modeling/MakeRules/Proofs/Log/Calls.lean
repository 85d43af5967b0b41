import MakeRules.Log.Call
import MakeRules.Proofs.Log.Cursor
import MakeRules.Proofs.Text.LineBreaks

/-! What the calls of a cursor are answered, and where they leave it.

A cursor over a text is no more than a position in its lines: whatever calls were made before, the
next one is answered from the lines at the position, which decide where it leaves the cursor too.
-/

set_option autoImplicit false

namespace MakeRules.Cursor

namespace Answer

/-- The record that was read, be it as a record or as a directory change. -/
def record? : Answer → Option Record
  | .record read => read
  | .change read => read.map (·.record)
  | .moved => none

end Answer

/-- The cursor behind calls made one after the other. -/
def afterAll (cursor : Cursor) (calls : List Call) : Cursor :=
  calls.foldl after cursor

/-- What calls made one after the other are answered. -/
def answers (cursor : Cursor) : List Call → List Answer
  | [] => []
  | call :: later => cursor.answer call :: answers (cursor.after call) later

/-- The lines from one place up to another are blank or skipped. -/
def PassedOver (lines : List Text) (skips : Text → Bool) (first stop : Nat) : Prop :=
  ∀ between line, first ≤ between → between < stop → lines[between]? = some line →
    passes skips (.ofLine between line) = true

/-- What a call is to be answered at a place in some lines, and the place that it is to lead to. -/
inductive Call.Reads (lines : List Text) (place : Nat) : Call → Answer → Nat → Prop where
  | next {line : Text} (shown : lines[place]? = some line) :
      Reads lines place .next (.record (some (.ofLine place line))) (place + 1)
  | atEnd (ended : place = lines.length) : Reads lines place .next (.record none) place
  | found {skips : Text → Bool} {stop : Nat} {line : Text} (behind : place ≤ stop)
      (shown : lines[stop]? = some line) (stops : passes skips (.ofLine stop line) = false)
      (passed : PassedOver lines skips place stop) :
      Reads lines place (.nextNonBlank skips) (.record (some (.ofLine stop line))) (stop + 1)
  | exhausted {skips : Text → Bool} (passed : PassedOver lines skips place lines.length) :
      Reads lines place (.nextNonBlank skips) (.record none) lines.length
  | change {line : Text} {change : DirectoryChange} (shown : lines[place]? = some line)
      (reads : DirectoryChange.ofRecord? (.ofLine place line) = some change) :
      Reads lines place .nextDirectoryChange (.change (some change)) (place + 1)
  | unchanged (unread : ∀ line, lines[place]? = some line →
        DirectoryChange.ofRecord? (.ofLine place line) = none) :
      Reads lines place .nextDirectoryChange (.change none) place
  | reset {position : Int} {goal : Nat} (clamped : (goal : Int) = max 0 (min position lines.length)) :
      Reads lines place (.reset position) .moved goal

/-- A cursor as a place in some lines. -/
structure Follows (cursor : Cursor) (lines : List Text) : Prop where
  mark_le : cursor.mark ≤ lines.length
  isAtEnd : cursor.isAtEnd = true ↔ cursor.mark = lines.length
  /-- The lines and the position decide what a call is answered and where it leads to. -/
  call : ∀ call answer place, call.Reads lines cursor.mark answer place ↔
    cursor.answer call = answer ∧ (cursor.after call).mark = place
  /-- A record that is read is that of the line which the cursor has come behind. -/
  record : ∀ call record, (cursor.answer call).record? = some record →
    record.line = .ofNat (cursor.after call).mark ∧
      ∃ before line, (cursor.after call).mark = before + 1 ∧ lines[before]? = some line ∧
        record.text = line.trim
  /-- Reading on until nothing is left gives each line from the position on once, with its number;
  from position zero, all of them. -/
  rest : cursor.answers (List.replicate (lines.length - cursor.mark + 1) .next) =
    ((lines.mapIdx .ofLine).drop cursor.mark).map (fun record => .record (some record)) ++
      [.record none]

section

variable {lines : List Text} {place : Nat} {call : Call} {answer : Answer} {behind : Nat}

theorem PassedOver.le {skips : Text → Bool} {first stop other : Nat} {line : Text}
    (passed : PassedOver lines skips first stop) (within : first ≤ other)
    (shown : lines[other]? = some line) (stops : passes skips (.ofLine other line) = false) :
    stop ≤ other := by
  apply Nat.le_of_not_lt
  intro before
  cases (passed other line within before shown).symm.trans stops

theorem lt_of_shown {line : Text} (shown : lines[place]? = some line) : place < lines.length :=
  (List.getElem?_eq_some_iff.1 shown).1

namespace Call.Reads

/-- A call has one answer and leads to one place. -/
theorem unique {other : Answer} {elsewhere : Nat} (first : call.Reads lines place answer behind)
    (second : call.Reads lines place other elsewhere) : answer = other ∧ behind = elsewhere := by
  cases first with
  | next shown =>
    cases second with
    | next same =>
      cases shown.symm.trans same
      exact ⟨rfl, rfl⟩
    | atEnd ended => exact absurd ended (Nat.ne_of_lt (lt_of_shown shown))
  | atEnd ended =>
    cases second with
    | next shown => exact absurd ended (Nat.ne_of_lt (lt_of_shown shown))
    | atEnd => exact ⟨rfl, rfl⟩
  | found after shown stops passed =>
    cases second with
    | found after' shown' stops' passed' =>
      -- neither stop is passed over on the way to the other
      cases Nat.le_antisymm (passed.le after' shown' stops') (passed'.le after shown stops)
      cases shown.symm.trans shown'
      exact ⟨rfl, rfl⟩
    | exhausted all => exact absurd (all.le after shown stops) (Nat.not_le.2 (lt_of_shown shown))
  | exhausted all =>
    cases second with
    | found after shown stops =>
      exact absurd (all.le after shown stops) (Nat.not_le.2 (lt_of_shown shown))
    | exhausted => exact ⟨rfl, rfl⟩
  | change shown reads =>
    cases second with
    | change same others =>
      cases shown.symm.trans same
      cases reads.symm.trans others
      exact ⟨rfl, rfl⟩
    | unchanged unread => cases reads.symm.trans (unread _ shown)
  | unchanged unread =>
    cases second with
    | change shown reads => cases reads.symm.trans (unread _ shown)
    | unchanged => exact ⟨rfl, rfl⟩
  | reset clamped =>
    cases second with
    | reset same => exact ⟨rfl, by omega⟩

theorem exists_line {record : Record} (reads : call.Reads lines place answer behind)
    (shown : answer.record? = some record) :
    ∃ before line, behind = before + 1 ∧ lines[before]? = some line ∧ record = .ofLine before line := by
  cases reads with
  | next line => cases shown; exact ⟨_, _, rfl, line, rfl⟩
  | found _ line => cases shown; exact ⟨_, _, rfl, line, rfl⟩
  | change line reads =>
    cases shown
    exact ⟨_, _, rfl, line, DirectoryChange.record_of_ofRecord? reads⟩
  | atEnd | exhausted | unchanged | reset => cases shown

end Call.Reads

end

theorem nextDirectoryChange_of_some {cursor : Cursor} {change : DirectoryChange}
    (found : cursor.ahead.head?.bind DirectoryChange.ofRecord? = some change) :
    cursor.nextDirectoryChange = (some change, cursor.skip 1) := by
  rw [nextDirectoryChange, found]

theorem nextDirectoryChange_of_none {cursor : Cursor}
    (unread : cursor.ahead.head?.bind DirectoryChange.ofRecord? = none) :
    cursor.nextDirectoryChange = (none, cursor) := by
  rw [nextDirectoryChange, unread]

section

variable (cursor : Cursor)

/-- A call moves a cursor within its log. -/
theorem log_after (call : Call) : (cursor.after call).log = cursor.log := by
  cases call with
  | next | nextNonBlank | reset => rfl
  | nextDirectoryChange =>
    cases found : cursor.ahead.head?.bind DirectoryChange.ofRecord? with
    | none => rw [after, nextDirectoryChange_of_none found]
    | some change => rw [after, nextDirectoryChange_of_some found, log_skip]

theorem log_afterAll (calls : List Call) : (cursor.afterAll calls).log = cursor.log := by
  induction calls generalizing cursor with
  | nil => rfl
  | cons call later ih => exact (ih (cursor.after call)).trans (cursor.log_after call)

theorem answers_next :
    cursor.answers (List.replicate (cursor.ahead.length + 1) .next) =
      cursor.ahead.map (fun record => .record (some record)) ++ [.record none] := by
  induction ahead : cursor.ahead generalizing cursor with
  | nil => simp [answers, answer, next, ahead]
  | cons record rest ih =>
    have behind : (cursor.after .next).ahead = rest := by simp [after, next, ahead]
    have first : cursor.answer .next = .record (some record) := by simp [answer, next, ahead]
    rw [List.length_cons, List.replicate_succ, answers, first, ih _ behind]
    rfl

theorem nextNonBlank_eq (skips : Text → Bool) :
    let count := (cursor.ahead.takeWhile (passes skips)).length
    cursor.nextNonBlank skips = (cursor.ahead[count]?, cursor.skip (count + 1)) := by
  intro count
  rw [nextNonBlank, next, skip_skip, ahead_skip, List.head?_drop]

end

section

variable {cursor : Cursor} {source : Text} (reads : cursor.log = Log.ofText source)

include reads

theorem mark_add_length_ahead_eq : cursor.mark + cursor.ahead.length = source.lines.length := by
  rw [mark_add_length_ahead, reads, Log.length_ofText]

theorem getElem?_ahead (offset : Nat) :
    cursor.ahead[offset]? =
      source.lines[cursor.mark + offset]?.map (.ofLine (cursor.mark + offset)) := by
  rw [← getElem?_log, reads, Log.getElem?_ofText]

theorem head?_ahead : cursor.ahead.head? = source.lines[cursor.mark]?.map (.ofLine cursor.mark) := by
  rw [List.head?_eq_getElem?, getElem?_ahead reads, Nat.add_zero]

theorem mark_skip_of_shown {count : Nat} {line : Text}
    (shown : source.lines[cursor.mark + count]? = some line) :
    (cursor.skip (count + 1)).mark = cursor.mark + count + 1 := by
  have within := lt_of_shown shown
  have whole := mark_add_length_ahead_eq reads
  rw [mark_skip]
  omega

theorem mark_skip_of_none {count : Nat} (ended : source.lines[cursor.mark + count]? = none) :
    (cursor.skip (count + 1)).mark = source.lines.length := by
  have beyond := List.getElem?_eq_none_iff.1 ended
  have whole := mark_add_length_ahead_eq reads
  rw [mark_skip]
  omega

theorem reads_next :
    Call.next.Reads source.lines cursor.mark (cursor.answer .next) (cursor.after .next).mark := by
  have first : cursor.answer .next = .record _ := congrArg Answer.record (head?_ahead reads)
  have behind : cursor.after .next = cursor.skip 1 := rfl
  rw [first, behind]
  cases shown : source.lines[cursor.mark]? with
  | none =>
    have stays : (cursor.skip 1).mark = source.lines.length := mark_skip_of_none reads shown
    have ended : cursor.mark = source.lines.length := by
      have beyond := List.getElem?_eq_none_iff.1 shown
      have whole := mark_add_length_ahead_eq reads
      omega
    rw [stays, ← ended]
    exact .atEnd ended
  | some line =>
    have moves : (cursor.skip 1).mark = cursor.mark + 1 := mark_skip_of_shown reads shown
    rw [moves]
    exact .next shown

/-- The search stops behind the records ahead that are blank or skipped, at a line or at the end. -/
theorem reads_nextNonBlank (skips : Text → Bool) :
    (Call.nextNonBlank skips).Reads source.lines cursor.mark (cursor.answer (.nextNonBlank skips))
      (cursor.after (.nextNonBlank skips)).mark := by
  let count := (cursor.ahead.takeWhile (passes skips)).length
  have next : cursor.nextNonBlank skips = (_, cursor.skip (count + 1)) := cursor.nextNonBlank_eq skips
  have passed : PassedOver source.lines skips cursor.mark (cursor.mark + count) := by
    intro between line behind before shown
    obtain ⟨offset, rfl⟩ := Nat.exists_eq_add_of_le behind
    apply holds_of_lt_length_takeWhile (Nat.lt_of_add_lt_add_left before)
    rw [getElem?_ahead reads, shown]
    rfl
  rw [answer, after, next, getElem?_ahead reads]
  cases shown : source.lines[cursor.mark + count]? with
  | none =>
    rw [mark_skip_of_none reads shown]
    refine .exhausted fun between line behind before within => passed between line behind ?_ within
    exact Nat.lt_of_lt_of_le before (List.getElem?_eq_none_iff.1 shown)
  | some line =>
    rw [mark_skip_of_shown reads shown]
    refine .found (Nat.le_add_right ..) shown ?_ passed
    apply not_holds_of_getElem?_length_takeWhile
    rw [getElem?_ahead reads, shown]
    rfl

theorem reads_nextDirectoryChange :
    Call.nextDirectoryChange.Reads source.lines cursor.mark (cursor.answer .nextDirectoryChange)
      (cursor.after .nextDirectoryChange).mark := by
  have first := head?_ahead reads
  cases found : cursor.ahead.head?.bind DirectoryChange.ofRecord? with
  | none =>
    rw [answer, after, nextDirectoryChange_of_none found]
    rw [first] at found
    refine .unchanged fun line shown => ?_
    rw [shown] at found
    exact found
  | some change =>
    rw [answer, after, nextDirectoryChange_of_some found]
    rw [first] at found
    obtain ⟨record, read, changes⟩ := Option.bind_eq_some_iff.1 found
    obtain ⟨line, shown, rfl⟩ := Option.map_eq_some_iff.1 read
    have moves : (cursor.skip 1).mark = cursor.mark + 1 := mark_skip_of_shown reads shown
    rw [moves]
    exact .change shown changes

theorem reads_reset (position : Int) :
    (Call.reset position).Reads source.lines cursor.mark (cursor.answer (.reset position))
      (cursor.after (.reset position)).mark := by
  apply Call.Reads.reset
  rw [after, mark_reset, reads, Log.length_ofText]
  omega

theorem reads_call (call : Call) :
    call.Reads source.lines cursor.mark (cursor.answer call) (cursor.after call).mark := by
  cases call with
  | next => exact reads_next reads
  | nextNonBlank skips => exact reads_nextNonBlank reads skips
  | nextDirectoryChange => exact reads_nextDirectoryChange reads
  | reset position => exact reads_reset reads position

theorem follows : cursor.Follows source.lines := by
  have whole := mark_add_length_ahead_eq reads
  exact {
    mark_le := by omega
    isAtEnd := by
      rw [isAtEnd, List.isEmpty_iff, ← List.length_eq_zero_iff]
      omega
    call := fun call answer place =>
      ⟨(reads_call reads call).unique, by rintro ⟨rfl, rfl⟩; exact reads_call reads call⟩
    record := fun call record shown => by
      obtain ⟨before, line, behind, within, rfl⟩ := (reads_call reads call).exists_line shown
      rw [behind]
      exact ⟨rfl, before, line, rfl, within, rfl⟩
    rest := by
      have left : source.lines.length - cursor.mark = cursor.ahead.length := by omega
      rw [left, answers_next, ahead_eq_drop, reads, Log.ofText_eq_mapIdx] }

end

/-- A text has its lines in one way, one for each line feed and one for what stands behind the last
of them. However a cursor over the text was called before, it is a place in these lines. -/
theorem follows_lines (source : Text) :
    (∀ lines, source.HasLines lines ↔ source.lines = lines) ∧
      source.lines.length = source.count '\n' + (if source.getLast?.all (· == '\n') then 0 else 1) ∧
      ∀ calls : List Call, ((start (Log.ofText source)).afterAll calls).Follows source.lines :=
  ⟨fun _ => Text.hasLines_iff, (Text.hasLines_lines source).length_eq,
    fun calls => follows (log_afterAll _ calls)⟩

-- a CR alone ends no line, and the positions of a log of three lines are those from 0 to 3
example : answers (start (Log.ofText "\r\n a\rb \r\nLd\n".toList))
      [.nextNonBlank (· == "Ld".toList), .nextDirectoryChange, .reset 7, .next, .reset (-1), .next] =
    [.record (some ⟨"a\rb".toList, .ofNat 2⟩), .change none, .moved, .record none, .moved,
      .record (some ⟨[], .ofNat 1⟩)] := by
  decide +kernel

end MakeRules.Cursor
