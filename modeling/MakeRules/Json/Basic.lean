import MakeRules.Number.Decimal
import MakeRules.Text.Units

/-! JSON values, numbers kept as exact decimals. -/

set_option autoImplicit false

namespace MakeRules

inductive Json where
  | null
  | bool (value : Bool)
  | num (value : Decimal)
  | str (text : Text)
  | arr (items : List Json)
  /-- The members of an object in order. -/
  | obj (members : List (Text × Json))
  deriving Repr

namespace Json

-- Lists of values within a value need a decision procedure of their own.
mutual

def decEq : (a b : Json) → Decidable (a = b)
  | .null, .null => isTrue rfl
  | .bool a, .bool b => decidable_of_iff (a = b) (by simp)
  | .num a, .num b => decidable_of_iff (a = b) (by simp)
  | .str a, .str b => decidable_of_iff (a = b) (by simp)
  | .arr a, .arr b =>
    haveI := decEqItems a b
    decidable_of_iff (a = b) (by simp)
  | .obj a, .obj b =>
    haveI := decEqMembers a b
    decidable_of_iff (a = b) (by simp)
  | .null, .bool _ | .null, .num _ | .null, .str _ | .null, .arr _ | .null, .obj _
  | .bool _, .null | .bool _, .num _ | .bool _, .str _ | .bool _, .arr _ | .bool _, .obj _
  | .num _, .null | .num _, .bool _ | .num _, .str _ | .num _, .arr _ | .num _, .obj _
  | .str _, .null | .str _, .bool _ | .str _, .num _ | .str _, .arr _
  | .str _, .obj _
  | .arr _, .null | .arr _, .bool _ | .arr _, .num _ | .arr _, .str _ | .arr _, .obj _
  | .obj _, .null | .obj _, .bool _ | .obj _, .num _ | .obj _, .str _ | .obj _, .arr _ =>
    isFalse (by intro same; cases same)

def decEqItems : (a b : List Json) → Decidable (a = b)
  | [], [] => isTrue rfl
  | a :: as, b :: bs =>
    haveI := decEq a b
    haveI := decEqItems as bs
    decidable_of_iff (a = b ∧ as = bs) (by simp)
  | [], _ :: _ | _ :: _, [] => isFalse (by intro same; cases same)

def decEqMembers : (a b : List (Text × Json)) → Decidable (a = b)
  | [], [] => isTrue rfl
  | (key, a) :: as, (other, b) :: bs =>
    haveI := decEq a b
    haveI := decEqMembers as bs
    decidable_of_iff (key = other ∧ a = b ∧ as = bs) (by simp [and_assoc])
  | [], _ :: _ | _ :: _, [] => isFalse (by intro same; cases same)

end

instance : DecidableEq Json := decEq

def nat (n : Nat) : Json :=
  .num (.ofNat n)

def text? : Json → Option Text
  | .str text => some text
  | _ => none

def member? (key : Text) (members : List (Text × Json)) : Option Json :=
  (members.find? (·.1 == key)).map (·.2)

/-- Give a key a value: in its old place if it has one, else behind all others. -/
def setMember (key : Text) (value : Json) : List (Text × Json) → List (Text × Json)
  | [] => [(key, value)]
  | member :: rest =>
    if member.1 = key then (key, value) :: rest else member :: setMember key value rest

@[simp] theorem member?_setMember_self (key : Text) (value : Json)
    (members : List (Text × Json)) : member? key (setMember key value members) = some value := by
  induction members with
  | nil => simp [setMember, member?]
  | cons member rest ih =>
    unfold setMember
    split
    · simp [member?]
    · next different => simpa [member?, List.find?_cons, different] using ih

theorem member?_setMember_of_ne {key other : Text} (different : other ≠ key) (value : Json)
    (members : List (Text × Json)) :
    member? other (setMember key value members) = member? other members := by
  induction members with
  | nil => simp [setMember, member?, different.symm]
  | cons member rest ih =>
    unfold setMember
    split
    · next same => simp [member?, same, different.symm]
    · simp only [member?, List.find?_cons] at ih ⊢
      split
      · rfl
      · exact ih

/-- The members that keys and values make up, of which the last value of a key counts. -/
def collect (pairs : List (Text × Json)) : List (Text × Json) :=
  pairs.foldl (fun members (key, value) => setMember key value members) []

def ofPairs (pairs : List (Text × Json)) : Json :=
  .obj (collect pairs)

end Json

end MakeRules
