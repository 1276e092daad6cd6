/-! # Properties

Properties are pairs of a key and a value in the order in which their keys were first set.

* `get?_set_self`, `get?_set_of_ne`: setting a key changes the value of that key alone.
-/

namespace ModelLabels
set_option autoImplicit false

/-- A custom value with the key it is kept under. -/
structure Property where
  key : String
  value : String
  deriving Repr, DecidableEq

/-- Custom values in the order of their keys. -/
abbrev Properties := List Property

namespace Properties

/-- The value of the first property with a key. -/
def get? (ps : Properties) (key : String) : Option String :=
  match ps with
  | [] => none
  | p :: rest => if p.key = key then some p.value else get? rest key

/-- Give the first property with a key a new value, or add the property at the end. -/
def set (ps : Properties) (key value : String) : Properties :=
  match ps with
  | [] => [⟨key, value⟩]
  | p :: rest => if p.key = key then ⟨key, value⟩ :: rest else p :: set rest key value

/-- The keys of properties, in order. -/
def keys (ps : Properties) : List String := ps.map (·.key)

theorem get?_set_self (ps : Properties) (key value : String) :
    get? (set ps key value) key = some value := by
  induction ps with
  | nil => simp [set, get?]
  | cons p rest ih =>
    unfold set
    split
    · simp [get?]
    · rename_i h
      simp [get?, h, ih]

theorem get?_set_of_ne {key other : String} (h : other ≠ key) (ps : Properties) (value : String) :
    get? (set ps key value) other = get? ps other := by
  induction ps with
  | nil => simp [set, get?, Ne.symm h]
  | cons p rest ih =>
    unfold set
    split
    · rename_i hp
      have : ¬ p.key = other := fun e => h (e ▸ hp)
      simp [get?, Ne.symm h, this]
    · simp [get?, ih]

end Properties

end ModelLabels
