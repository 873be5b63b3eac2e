import ChatRelay.Error

/-!
# Error slots

A place for the one error that a stream ends with. The first error stays.
-/

namespace ChatRelay

structure ErrorSlot where
  /-- The error, once there is one. -/
  error : Option RelayError := none
  deriving DecidableEq

namespace ErrorSlot

/-- The slot with an error, unless it has one already. -/
def set (slot : ErrorSlot) (error : RelayError) : ErrorSlot :=
  { error := slot.error.or (some error) }

end ErrorSlot

end ChatRelay
