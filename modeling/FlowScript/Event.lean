/-!
Events that a compilation reports besides its result.
-/

namespace FlowScript

inductive Level where
  | warn
  | info
  | debug
  deriving DecidableEq, Repr

structure Event where
  level : Level
  message : String
  fields : List (String × String)
  deriving DecidableEq, Repr

end FlowScript
