

namespace NetState

/-- What is to become of an object. -/
inductive Goal where
  /-- It is there, as wanted. -/
  | present
  | absent
  deriving DecidableEq, Repr

end NetState
