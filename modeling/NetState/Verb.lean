

namespace NetState

/-- What a request does to an object. -/
inductive Verb where
  /-- Creates it, and fails if there is one already. -/
  | create
  /-- Creates it, or puts it in the place of the one there is. -/
  | replace
  /-- Changes the one there is. -/
  | change
  | delete
  deriving DecidableEq, Repr

end NetState
