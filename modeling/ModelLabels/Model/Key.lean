/-! # Keys

A key addresses an object of a model: the slot the object sits in, and the serial number the object
was created with.  Slots are reused and serial numbers are not, so the key of a removed object never
addresses the object that takes its slot.
-/

namespace ModelLabels
set_option autoImplicit false

/-- The address of an object in a model. -/
structure Key where
  slot : Nat
  serial : Nat
  deriving Repr, DecidableEq, Hashable, Inhabited

/-- A key as messages name it: by its slot. -/
def Key.text (k : Key) : String := "#" ++ toString k.slot

end ModelLabels
