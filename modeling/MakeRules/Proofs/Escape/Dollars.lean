import MakeRules.Escape

/-! The dollars that the escapers write.

Make reads two dollars as one of the recipe, and a single one as the beginning of a
variable. All dollars of targets and recipes stand in pairs, whatever they are joined to.
-/

set_option autoImplicit false

namespace MakeRules.Escape

/-- No run of dollars has an odd one in it, so make finds no variable in the text. -/
def DollarsEven (text : Text) : Prop :=
  ∀ before count after, text = before ++ List.replicate count '$' ++ after →
    before.getLast? ≠ some '$' → after.head? ≠ some '$' → 2 ∣ count

/-- A text read from its front, two dollars at a time. -/
inductive Paired : Text → Prop where
  | nil : Paired []
  | pair {text : Text} (rest : Paired text) : Paired ('$' :: '$' :: text)
  | other {c : Char} {text : Text} (plain : c ≠ '$') (rest : Paired text) : Paired (c :: text)

namespace Paired

theorem append {front back : Text} (first : Paired front) (second : Paired back) :
    Paired (front ++ back) := by
  induction first with
  | nil => exact second
  | pair _ ih => exact ih.pair
  | other plain _ ih => exact ih.other plain

theorem of_not_mem {text : Text} (plain : '$' ∉ text) : Paired text := by
  induction text with
  | nil => exact nil
  | cons c text ih =>
    obtain ⟨different, plain⟩ := not_or.1 fun found => plain (List.mem_cons.2 found)
    exact (ih plain).other (Ne.symm different)

theorem flatMap {write : Char → Text} (writes : ∀ c, Paired (write c)) (text : Text) :
    Paired (text.flatMap write) := by
  induction text with
  | nil => exact nil
  | cons c text ih => exact (writes c).append ih

theorem two_dvd_of_replicate_append {after : Text} (stops : after.head? ≠ some '$') :
    ∀ {count : Nat}, Paired (List.replicate count '$' ++ after) → 2 ∣ count
  | 0, _ => Nat.dvd_zero 2
  | 1, .pair _ => absurd rfl stops
  | _ + 1, .other plain _ => absurd rfl plain
  | count + 2, .pair rest => by
    have earlier := two_dvd_of_replicate_append stops rest
    omega

/-- A pair cannot lie half before a run, since no dollar stands before it. -/
theorem of_append {before behind : Text} (paired : Paired (before ++ behind))
    (stops : before.getLast? ≠ some '$') : Paired behind := by
  generalize whole : before ++ behind = text at paired
  induction paired generalizing before with
  | nil =>
    obtain ⟨rfl, rfl⟩ := List.append_eq_nil_iff.1 whole
    exact nil
  | @pair text rest ih =>
    match before with
    | [] => exact (show behind = _ from whole) ▸ rest.pair
    | [c] =>
      obtain ⟨rfl, _⟩ := List.cons.inj whole
      exact absurd rfl stops
    | c :: d :: before =>
      -- both dollars of the pair stand before the run
      obtain ⟨rfl, others⟩ := List.cons.inj whole
      obtain ⟨rfl, inner⟩ := List.cons.inj others
      refine ih (fun last => stops ?_) inner
      rw [List.getLast?_cons_cons, List.getLast?_cons, last]
      rfl
  | @other c text plain rest ih =>
    match before with
    | [] => exact (show behind = _ from whole) ▸ rest.other plain
    | d :: before =>
      obtain ⟨rfl, inner⟩ := List.cons.inj whole
      refine ih (fun last => stops ?_) inner
      rw [List.getLast?_cons, last]
      rfl

theorem dollarsEven {text : Text} (paired : Paired text) : DollarsEven text := by
  rintro before count after rfl opens stops
  rw [List.append_assoc] at paired
  exact two_dvd_of_replicate_append stops (paired.of_append opens)

end Paired

theorem dollarsEven_dollar (command : Text) : DollarsEven (dollar command) := by
  refine (Paired.flatMap (fun c => ?_) command).dollarsEven
  unfold dollarChar
  split
  · exact Paired.nil.pair
  · next plain => exact Paired.nil.other plain

theorem dollarsEven_makeTarget (path : Text) : DollarsEven (makeTarget path) := by
  refine (Paired.flatMap (fun c => ?_) path).dollarsEven
  unfold targetChar
  split
  · exact Paired.nil.pair
  · next plain =>
    split
    · exact (Paired.nil.other plain).other (by decide)
    · exact Paired.nil.other plain

/-- The text with one dollar in the place of each two, from the front. -/
def ofDollar : Text → Text
  | [] => []
  | '$' :: '$' :: rest => '$' :: ofDollar rest
  | c :: rest => c :: ofDollar rest

theorem ofDollar_cons {c : Char} (plain : c ≠ '$') (text : Text) :
    ofDollar (c :: text) = c :: ofDollar text := by
  rw [ofDollar]
  intro rest isDollar
  exact absurd isDollar plain

theorem ofDollar_dollar (command : Text) : ofDollar (dollar command) = command := by
  induction command with
  | nil => rfl
  | cons c command ih =>
    rw [dollar_cons, dollarChar]
    split
    · next isDollar => rw [isDollar, List.cons_append, List.singleton_append, ofDollar, ih]
    · next plain => rw [List.singleton_append, ofDollar_cons plain, ih]

end MakeRules.Escape
