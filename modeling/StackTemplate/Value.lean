import StackTemplate.Decimal.Binary64

/-!
Plain data trees. An object lists its members in the order of their first insertion.
-/

namespace StackTemplate

inductive Value where
  | null
  | bool (b : Bool)
  | int (i : Int)
  | float (x : Binary64)
  | str (s : String)
  | array (items : List Value)
  | object (members : List (String × Value))
deriving BEq, Repr, Inhabited

abbrev Members := List (String × Value)

namespace Members

def get? (key : String) : Members → Option Value
  | [] => none
  | (k, v) :: rest => if k = key then some v else get? key rest

/-- A key that is present keeps its place and gets the new value; a new key comes last. -/
def insert (key : String) (value : Value) : Members → Members
  | [] => [(key, value)]
  | (k, v) :: rest => if k = key then (k, value) :: rest else (k, v) :: insert key value rest

def ofPairs (pairs : List (String × Value)) : Members :=
  pairs.foldl (fun members pair => insert pair.1 pair.2 members) []

def keys (members : Members) : List String :=
  members.map (·.1)

theorem get?_insert_self (key : String) (value : Value) (members : Members) :
    get? key (insert key value members) = some value := by
  induction members with
  | nil => simp [insert, get?]
  | cons head rest ih =>
    obtain ⟨k, v⟩ := head
    by_cases h : k = key <;> simp [insert, get?, h, ih]

theorem get?_insert_of_ne {key other : String} (value : Value) (members : Members)
    (h : other ≠ key) : get? other (insert key value members) = get? other members := by
  induction members with
  | nil => simp [insert, get?, Ne.symm h]
  | cons head rest ih =>
    obtain ⟨k, v⟩ := head
    by_cases hk : k = key
    · subst hk
      simp [insert, get?, Ne.symm h]
    · by_cases ho : k = other
      · subst ho
        simp [insert, get?, hk]
      · simp [insert, get?, hk, ho, ih]

end Members

namespace Value

def get? (key : String) : Value → Option Value
  | object members => Members.get? key members
  | _ => none

def array? : Value → Option (List Value)
  | array items => some items
  | _ => none

def object? : Value → Option Members
  | object members => some members
  | _ => none

def str? : Value → Option String
  | str s => some s
  | _ => none

def bool? : Value → Option Bool
  | bool b => some b
  | _ => none

/-- Only integers that are not negative; a float is none even when it is whole. -/
def nat? : Value → Option Nat
  | int (.ofNat n) => some n
  | _ => none

/-- Any number, as the nearest double. -/
def float? : Value → Option Binary64
  | int i => Binary64.ofInt? i
  | float x => some x
  | _ => none

end Value

end StackTemplate
