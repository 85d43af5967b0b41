import MakeRules.Json.Held
import MakeRules.Proofs.Json.Strings
import Mathlib.Data.List.Nodup
import Mathlib.Data.List.TakeWhile

/-! JSON values, read back as they were printed.

A value whose numbers are integers, and whose objects have no key twice, is found again in its
compact text, whatever stands behind it. That text is a single line.
-/

set_option autoImplicit false

namespace MakeRules.Json

/-! ## Integers -/

/-- What stands behind a number is no further part of it. -/
def EndsNumber (rest : Text) : Prop :=
  ∀ c ∈ rest.head?, c.isDigit = false ∧ c ≠ '.' ∧ c ≠ 'e' ∧ c ≠ 'E'

theorem ofDigits_ofNat (n : Nat) : ofDigits (Text.ofNat n) = n := by
  calc ofDigits (Text.ofNat n)
      = Nat.ofDigitChars 10 (Nat.toDigits 10 n) 0 := by
        simp only [ofDigits, Text.ofNat, Nat.ofDigitChars_eq_foldl, Nat.mul_comm]
    _ = n := Nat.ofDigitChars_ten_toDigits

theorem isDigit_of_mem_ofNat {n : Nat} {c : Char} (member : c ∈ Text.ofNat n) :
    c.isDigit = true :=
  Nat.isDigit_of_mem_toDigits (by decide) (by decide) member

theorem exists_ofNat_eq_cons (n : Nat) :
    ∃ c more, Text.ofNat n = c :: more ∧ c.isDigit = true := by
  obtain ⟨c, more, shape⟩ := List.exists_cons_of_ne_nil (Nat.toDigits_ne_nil (n := n) (b := 10))
  refine ⟨c, more, shape, isDigit_of_mem_ofNat (n := n) ?_⟩
  rw [Text.ofNat, shape]
  exact List.mem_cons_self

/-- Only zero begins with a zero. -/
theorem exists_ofNat_cons {n : Nat} (positive : 0 < n) :
    ∃ c more, Text.ofNat n = c :: more ∧ c ≠ '0' := by
  induction n using Nat.strongRecOn with
  | ind n ih =>
    by_cases small : n < 10
    · refine ⟨n.digitChar, [], Nat.toDigits_of_lt_base small, ?_⟩
      rw [Ne, Nat.digitChar_eq_zero]
      omega
    · obtain ⟨c, more, shape, notZero⟩ := ih (n / 10) (by omega) (by omega)
      refine ⟨c, more ++ [(n % 10).digitChar], ?_, notZero⟩
      rw [Text.ofNat, Nat.toDigits_of_base_le (by decide) (by omega), ← Text.ofNat, shape]
      rfl

theorem exists_signed_eq_cons (n : Int) :
    ∃ c more, Text.signed Text.ofNat n = c :: more ∧ (c.isDigit = true ∨ c = '-') := by
  unfold Text.signed
  split
  · exact ⟨'-', _, rfl, .inr rfl⟩
  · obtain ⟨c, more, shape, isDigit⟩ := exists_ofNat_eq_cons n.natAbs
    exact ⟨c, more, shape, .inl isDigit⟩

section

variable {rest : Text} (ends : EndsNumber rest)

include ends

theorem digits_ofNat_append (n : Nat) :
    digits (Text.ofNat n ++ rest) = some (Text.ofNat n, rest) := by
  have run : (Text.ofNat n ++ rest).takeWhile Char.isDigit = Text.ofNat n := by
    rw [List.takeWhile_append_of_pos fun _ => isDigit_of_mem_ofNat]
    cases rest with
    | nil => rw [List.takeWhile_nil, List.append_nil]
    | cons c rest => simp [(ends c rfl).1]
  obtain ⟨c, more, shape, -⟩ := exists_ofNat_eq_cons n
  rw [digits, run, shape]
  simp

theorem wholeDigits_ofNat_append (n : Nat) :
    wholeDigits (Text.ofNat n ++ rest) = some (Text.ofNat n, rest) := by
  obtain rfl | positive := n.eq_zero_or_pos
  · rfl
  · have all := digits_ofNat_append ends n
    obtain ⟨c, more, shape, notZero⟩ := exists_ofNat_cons positive
    rw [shape, List.cons_append] at all ⊢
    rw [wholeDigits, all]
    exact fun _ isZero => notZero (List.cons.inj isZero).1

theorem unsigned_ofNat_append (n : Nat) :
    unsigned (Text.ofNat n ++ rest) = some (⟨n, 0⟩, rest) := by
  have fraction : fractionDigits rest = some ([], rest) := by
    cases rest with
    | nil => rfl
    | cons c rest =>
      rw [fractionDigits]
      exact fun _ isPoint => (ends c rfl).2.1 (List.cons.inj isPoint).1
  have exponent : exponentPart rest = some (0, rest) := by
    cases rest with
    | nil => rfl
    | cons c rest =>
      obtain ⟨-, -, notSmall, notLarge⟩ := ends c rfl
      simp [exponentPart, notSmall, notLarge]
  simp [unsigned, wholeDigits_ofNat_append ends, fraction, exponent, ofDigits_ofNat]

/-- An integer is read back, whatever stands behind it. -/
theorem number_signed_append (n : Int) :
    number (Text.signed Text.ofNat n ++ rest) = some (⟨n, 0⟩, rest) := by
  have magnitude := unsigned_ofNat_append ends n.natAbs
  unfold Text.signed
  split
  · next negative =>
    have negated : -(n.natAbs : Int) = n := by omega
    rw [List.cons_append, number, magnitude]
    exact congrArg (fun m : Int => some ((⟨m, 0⟩ : Decimal), rest)) negated
  · next positive =>
    have same : (n.natAbs : Int) = n := by omega
    rw [number, magnitude]
    · rw [same]
    · intro behind isSign
      obtain ⟨c, more, shape, isDigit⟩ := exists_ofNat_eq_cons n.natAbs
      rw [shape, List.cons_append] at isSign
      rw [(List.cons.inj isSign).1] at isDigit
      cases isDigit

end

/-! ## Values -/

mutual

/-- Numbers are integers, and no object has a key twice. -/
def Regular : Json → Prop
  | .num n => n.exponent = 0
  | .arr items => RegularItems items
  | .obj members => (members.map (·.1)).Nodup ∧ RegularMembers members
  | _ => True

def RegularItems : List Json → Prop
  | [] => True
  | item :: rest => Regular item ∧ RegularItems rest

def RegularMembers : List (Text × Json) → Prop
  | [] => True
  | (_, value) :: rest => Regular value ∧ RegularMembers rest

end

@[simp] theorem regular_nat (n : Nat) : Regular (.nat n) :=
  rfl

@[simp] theorem regular_str (text : Text) : Regular (.str text) :=
  trivial

theorem regularItems_iff {items : List Json} :
    RegularItems items ↔ ∀ item ∈ items, Regular item := by
  induction items with
  | nil => simp [RegularItems]
  | cons item rest ih => simp [RegularItems, ih]

theorem regularMembers_iff {members : List (Text × Json)} :
    RegularMembers members ↔ ∀ member ∈ members, Regular member.2 := by
  induction members with
  | nil => simp [RegularMembers]
  | cons member rest ih => simp [RegularMembers, ih]

/-- An object of which no two keys are one is regular if its values are. -/
theorem regular_object {members : List (Text × Json)} (distinct : (members.map (·.1)).Nodup)
    (values : ∀ member ∈ members, Regular member.2) : Regular (.obj members) :=
  ⟨distinct, regularMembers_iff.2 values⟩

theorem setMember_eq_append {key : Text} {members : List (Text × Json)}
    (fresh : key ∉ members.map (·.1)) (value : Json) :
    setMember key value members = members ++ [(key, value)] := by
  induction members with
  | nil => rfl
  | cons member rest ih =>
    rw [List.map_cons, List.mem_cons, not_or] at fresh
    rw [setMember, if_neg (Ne.symm fresh.1), ih fresh.2, List.cons_append]

theorem foldl_setMember_eq_append (front : List (Text × Json)) {members : List (Text × Json)}
    (distinct : ((front ++ members).map (·.1)).Nodup) :
    members.foldl (fun found (key, value) => setMember key value found) front =
      front ++ members := by
  induction members generalizing front with
  | nil => simp
  | cons member rest ih =>
    have fresh : member.1 ∉ front.map (·.1) := by
      rw [List.map_append, List.nodup_append] at distinct
      exact fun found => distinct.2.2 _ found _ List.mem_cons_self rfl
    rw [List.append_cons] at distinct ⊢
    refine Eq.trans ?_ (ih _ distinct)
    rw [List.foldl_cons, ← setMember_eq_append fresh]

/-- Members of which no two have one key stay as they are. -/
theorem collect_eq_self {members : List (Text × Json)} (distinct : (members.map (·.1)).Nodup) :
    collect members = members :=
  foldl_setMember_eq_append [] distinct

theorem print_num {n : Decimal} (regular : Regular (.num n)) :
    (num n).print = Text.signed Text.ofNat n.significand := by
  have integer : n.exponent = 0 := regular
  rw [print, numeral, if_pos integer]

/-- A value begins with a character that ends neither white space nor an array. -/
theorem exists_print_eq_cons {value : Json} (regular : Regular value) :
    ∃ c more, value.print = c :: more ∧ isBlank c = false ∧ c ≠ ']' := by
  cases value with
  | null => exact ⟨'n', _, rfl, by decide⟩
  | bool value => cases value <;> exact ⟨_, _, rfl, by decide⟩
  | str text => exact ⟨'"', _, rfl, by decide⟩
  | arr items => exact ⟨'[', _, rfl, by decide⟩
  | obj members => exact ⟨'\x7b', _, rfl, by decide⟩
  | num n =>
    obtain ⟨c, more, shape, first⟩ := exists_signed_eq_cons n.significand
    refine ⟨c, more, (print_num regular).trans shape, ?_, ?_⟩
    · rw [Bool.eq_false_iff]
      intro blank
      simp only [isBlank, Bool.or_eq_true, beq_iff_eq] at blank
      rcases blank with ((rfl | rfl) | rfl) | rfl <;> simp at first
    · rintro rfl
      simp at first

theorem skipBlanks_cons {c : Char} (notBlank : isBlank c = false) (rest : Text) :
    skipBlanks (c :: rest) = c :: rest := by
  rw [skipBlanks, List.dropWhile_cons_of_neg]
  simp [notBlank]

theorem exists_printItems_eq_cons {item : Json} (regular : Regular item) (items : List Json) :
    ∃ c more, printItems (item :: items) = c :: more ∧ isBlank c = false ∧ c ≠ ']' := by
  obtain ⟨c, more, shape, notBlank, notEnd⟩ := exists_print_eq_cons regular
  cases items with
  | nil => exact ⟨c, more ++ [']'], by rw [printItems, shape]; rfl, notBlank, notEnd⟩
  | cons next items =>
    refine ⟨c, more ++ ',' :: printItems (next :: items), ?_, notBlank, notEnd⟩
    rw [printItems, shape]
    · rfl
    · exact List.cons_ne_nil _ _

theorem valueFrom_quoted (fuel : Nat) (text rest : Text) :
    valueFrom (fuel + 1) (quoted text ++ rest) = some (.str text, rest) := by
  obtain ⟨body, shape, read⟩ := stringBody_quoted text rest
  rw [shape, valueFrom, read]
  rfl

theorem valueFrom_number {c : Char} (first : c.isDigit = true ∨ c = '-') (fuel : Nat)
    (more : Text) :
    valueFrom (fuel + 1) (c :: more) =
      (number (c :: more)).map fun (n, rest) => (.num n, rest) := by
  have notOther {d : Char} (other : (d.isDigit || d == '-') = false) {behind : Text} :
      c :: more ≠ d :: behind := by
    rintro ⟨⟩
    simp_all
  rw [valueFrom]
  all_goals exact fun _ => notOther rfl

/-- A member is read back, and what stands behind its value says whether more follow. -/
theorem pairsFrom_member {value : Json} (regular : Regular value) {fuel : Nat} {rest : Text}
    (read : valueFrom fuel (value.print ++ rest) = some (value, rest)) (key : Text) :
    pairsFrom (fuel + 1) (quoted key ++ ':' :: (value.print ++ rest)) = (do
      match skipBlanks rest with
      | '\x7d' :: rest => return ([(key, value)], rest)
      | ',' :: rest =>
        let (pairs, rest) ← pairsFrom fuel (skipBlanks rest)
        return ((key, value) :: pairs, rest)
      | _ => none) := by
  obtain ⟨body, shape, readKey⟩ := stringBody_quoted key (':' :: (value.print ++ rest))
  obtain ⟨c, more, first, notBlank, -⟩ := exists_print_eq_cons regular
  have skipped : skipBlanks (value.print ++ rest) = value.print ++ rest := by
    rw [first, List.cons_append, skipBlanks_cons notBlank]
  have colon : skipBlanks (':' :: (value.print ++ rest)) = ':' :: (value.print ++ rest) :=
    skipBlanks_cons rfl _
  rw [shape, pairsFrom]
  simp only [readKey, Option.bind_eq_bind, Option.bind_some, colon, skipped]
  exact congrArg (Option.bind · _) read

/-- Members begin with the quote of the first key. -/
theorem exists_printMembers_eq_cons (member : Text × Json) (members : List (Text × Json)) :
    ∃ more, printMembers (member :: members) = '"' :: more := by
  cases members <;> exact ⟨_, rfl⟩

mutual

/-- A regular value is read back, whatever stands behind it. -/
theorem valueFrom_print_append : ∀ (value : Json) (fuel : Nat) (rest : Text), Regular value →
    EndsNumber rest → 2 * value.print.length ≤ fuel →
      valueFrom fuel (value.print ++ rest) = some (value, rest)
  | value, 0, _, regular, _, enough => by
    obtain ⟨c, more, shape, -⟩ := exists_print_eq_cons regular
    simp [shape] at enough
  | .null, fuel + 1, rest, _, _, _ => rfl
  | .bool true, fuel + 1, rest, _, _, _ => rfl
  | .bool false, fuel + 1, rest, _, _, _ => rfl
  | .num n, fuel + 1, rest, regular, ends, _ => by
    obtain ⟨c, more, shape, first⟩ := exists_signed_eq_cons n.significand
    have read := number_signed_append ends n.significand
    rw [shape, List.cons_append] at read
    rw [print_num regular, shape, List.cons_append, valueFrom_number first, read]
    obtain ⟨significand, exponent⟩ := n
    cases regular
    rfl
  | .str text, fuel + 1, rest, _, _, _ => valueFrom_quoted fuel text rest
  | .arr [], fuel + 1, rest, _, _, _ => rfl
  | .arr (item :: items), fuel + 1, rest, regular, _, enough => by
    have read := itemsFrom_printItems_append (item :: items) fuel rest (List.cons_ne_nil _ _) regular
      (by simp only [print, List.length_cons] at enough; omega)
    obtain ⟨c, more, shape, notBlank, notEnd⟩ := exists_printItems_eq_cons regular.1 items
    rw [shape, List.cons_append] at read
    rw [print, shape, List.cons_append, List.cons_append, valueFrom, skipBlanks_cons notBlank]
    split
    · next isEnd => exact absurd (List.cons.inj isEnd).1 notEnd
    · rw [read]
      rfl
  | .obj [], fuel + 1, rest, _, _, _ => rfl
  | .obj (member :: members), fuel + 1, rest, regular, _, enough => by
    have reads := pairsFrom_printMembers_append (member :: members) fuel rest
      (List.cons_ne_nil _ _) regular.2
      (by simp only [print, List.length_cons] at enough; omega)
    obtain ⟨more, shape⟩ := exists_printMembers_eq_cons member members
    have opened : skipBlanks ('"' :: (more ++ rest)) = '"' :: (more ++ rest) := skipBlanks_cons rfl _
    rw [shape, List.cons_append] at reads
    rw [print, shape, List.cons_append, List.cons_append, valueFrom, opened]
    split
    · next isEnd => cases isEnd
    · simp only [reads, Option.map_some, ofPairs, collect_eq_self regular.1]

theorem itemsFrom_printItems_append : ∀ (items : List Json) (fuel : Nat) (rest : Text),
    items ≠ [] → RegularItems items → 2 * (printItems items).length ≤ fuel →
      itemsFrom fuel (printItems items ++ rest) = some (items, rest)
  | [], _, _, some_item, _, _ => absurd rfl some_item
  | item :: items, 0, _, _, regular, enough => by
    obtain ⟨c, more, shape, -⟩ := exists_printItems_eq_cons regular.1 items
    simp [shape] at enough
  | [item], fuel + 1, rest, _, regular, enough => by
    have read := valueFrom_print_append item fuel (']' :: rest) regular.1
      (by rintro _ ⟨⟩; decide)
      (by simp only [printItems, List.length_append, List.length_singleton] at enough; omega)
    rw [printItems, List.append_assoc, List.singleton_append, itemsFrom, read]
    rfl
  | item :: next :: items, fuel + 1, rest, _, regular, enough => by
    have lengths : (printItems (item :: next :: items)).length =
        item.print.length + (printItems (next :: items)).length + 1 := by
      simp only [printItems, List.length_append, List.length_cons, Nat.add_assoc]
    have read := valueFrom_print_append item fuel (',' :: (printItems (next :: items) ++ rest))
      regular.1 (by rintro _ ⟨⟩; decide) (by omega)
    have reads := itemsFrom_printItems_append (next :: items) fuel rest (List.cons_ne_nil _ _)
      regular.2 (by omega)
    obtain ⟨c, more, shape, notBlank, -⟩ := exists_printItems_eq_cons regular.2.1 items
    have comma : skipBlanks (',' :: (printItems (next :: items) ++ rest)) =
        ',' :: (printItems (next :: items) ++ rest) := skipBlanks_cons rfl _
    have skipped : skipBlanks (printItems (next :: items) ++ rest) =
        printItems (next :: items) ++ rest := by
      rw [shape, List.cons_append, skipBlanks_cons notBlank]
    have split : printItems (item :: next :: items) ++ rest =
        item.print ++ ',' :: (printItems (next :: items) ++ rest) := by
      simp [printItems]
    rw [split, itemsFrom]
    simp only [read, Option.bind_eq_bind, Option.bind_some, comma, skipped, reads]
    rfl

theorem pairsFrom_printMembers_append : ∀ (members : List (Text × Json)) (fuel : Nat)
    (rest : Text), members ≠ [] → RegularMembers members →
      2 * (printMembers members).length ≤ fuel →
        pairsFrom fuel (printMembers members ++ rest) = some (members, rest)
  | [], _, _, some_member, _, _ => absurd rfl some_member
  | member :: members, 0, _, _, _, enough => by
    obtain ⟨more, shape⟩ := exists_printMembers_eq_cons member members
    simp [shape] at enough
  | [(key, value)], fuel + 1, rest, _, regular, enough => by
    have lengths : (printMembers [(key, value)]).length =
        (quoted key).length + value.print.length + 2 := by
      simp only [printMembers, List.length_append, List.length_cons, List.length_nil]
      omega
    have read := valueFrom_print_append value fuel ('\x7d' :: rest) regular.1
      (by rintro _ ⟨⟩; decide) (by omega)
    have split : printMembers [(key, value)] ++ rest =
        quoted key ++ ':' :: (value.print ++ '\x7d' :: rest) := by
      simp [printMembers]
    rw [split, pairsFrom_member regular.1 read]
    rfl
  | (key, value) :: next :: members, fuel + 1, rest, _, regular, enough => by
    have lengths : (printMembers ((key, value) :: next :: members)).length =
        (quoted key).length + value.print.length + (printMembers (next :: members)).length + 2 := by
      simp only [printMembers, List.length_append, List.length_cons]
      omega
    have read := valueFrom_print_append value fuel (',' :: (printMembers (next :: members) ++ rest))
      regular.1 (by rintro _ ⟨⟩; decide) (by omega)
    have reads := pairsFrom_printMembers_append (next :: members) fuel rest (List.cons_ne_nil _ _)
      regular.2 (by omega)
    obtain ⟨more, shape⟩ := exists_printMembers_eq_cons next members
    have comma : skipBlanks (',' :: (printMembers (next :: members) ++ rest)) =
        ',' :: (printMembers (next :: members) ++ rest) := skipBlanks_cons rfl _
    have skipped : skipBlanks (printMembers (next :: members) ++ rest) =
        printMembers (next :: members) ++ rest := by
      rw [shape, List.cons_append, skipBlanks_cons rfl]
    have split : printMembers ((key, value) :: next :: members) ++ rest =
        quoted key ++ ':' :: (value.print ++ ',' :: (printMembers (next :: members) ++ rest)) := by
      simp [printMembers]
    rw [split, pairsFrom_member regular.1 read]
    simp only [comma, skipped, reads, Option.bind_eq_bind, Option.bind_some]
    rfl

end

/-- A regular value is all that its text says. -/
theorem parse?_print {value : Json} (regular : Regular value) :
    parse? value.print = some value := by
  have read := valueFrom_print_append value (2 * value.print.length + 2) [] regular nofun (by omega)
  obtain ⟨c, more, first, notBlank, -⟩ := exists_print_eq_cons regular
  rw [List.append_nil] at read
  have skipped : skipBlanks value.print = value.print := by
    rw [first, skipBlanks_cons notBlank]
  rw [parse?, skipped, read]
  rfl

/-! ## Lines -/

theorem lf_not_mem_signed (n : Int) : '\n' ∉ Text.signed Text.ofNat n := by
  have digits : '\n' ∉ Text.ofNat n.natAbs := by
    intro member
    cases isDigit_of_mem_ofNat member
  unfold Text.signed
  split
  · simpa using digits
  · exact digits

mutual

/-- A regular value is written on one line. -/
theorem lf_not_mem_print : ∀ value : Json, Regular value → '\n' ∉ value.print
  | .null, _ => by decide
  | .bool true, _ => by decide
  | .bool false, _ => by decide
  | .num n, regular => by
    rw [print_num regular]
    exact lf_not_mem_signed n.significand
  | .str text, _ => lf_not_mem_quoted text
  | .arr items, regular => by simpa [print] using lf_not_mem_printItems items regular
  | .obj members, regular => by simpa [print] using lf_not_mem_printMembers members regular.2

theorem lf_not_mem_printItems : ∀ items : List Json, RegularItems items → '\n' ∉ printItems items
  | [], _ => by decide
  | [item], regular => by simpa [printItems] using lf_not_mem_print item regular.1
  | item :: next :: items, regular => by
    have first := lf_not_mem_print item regular.1
    have more := lf_not_mem_printItems (next :: items) regular.2
    simpa [printItems, first] using more

theorem lf_not_mem_printMembers : ∀ members : List (Text × Json), RegularMembers members →
    '\n' ∉ printMembers members
  | [], _ => by decide
  | [(key, value)], regular => by
    simpa [printMembers, lf_not_mem_quoted key] using lf_not_mem_print value regular.1
  | (key, value) :: next :: members, regular => by
    have first := lf_not_mem_print value regular.1
    have more := lf_not_mem_printMembers (next :: members) regular.2
    simpa [printMembers, lf_not_mem_quoted key, first] using more

end

end MakeRules.Json
