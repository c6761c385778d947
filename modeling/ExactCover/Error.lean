import ExactCover.Text.Describe

/-!
# Errors

What a caller can be told about a problem that it set: that the solver is in a state which does
not allow the call, that an option lists an item twice, that a pre-selected option lists an item
no option covers, or that its own callback failed. Only the last of them leaves the solver
unusable.

Calls that run no callback cannot fail through one. Their errors carry the empty type in its
place, and `widen` lets them stand among the errors of calls that do.
-/

set_option autoImplicit false

namespace ExactCover

/-- Reasons for which a call is refused before anything is touched. -/
inductive StateError where
  /-- An earlier search was interrupted by a callback and left the grid partly taken apart. -/
  | poisoned
  /-- A search is running. -/
  | searching
  /-- The grid was built for searching and takes no more rows. -/
  | sealed
  deriving DecidableEq, Repr

namespace StateError

/-- The text that tells a caller what is wrong. -/
def message : StateError → String
  | .poisoned => "solver is poisoned by an interrupted search"
  | .searching => "a search is already in progress"
  | .sealed => "matrix is sealed and cannot accept new options"

instance : Describe StateError where
  describe
    | .poisoned => "Poisoned"
    | .searching => "Searching"
    | .sealed => "Sealed"

end StateError

/-- The errors of calls whose callbacks fail with values of `ε`. -/
inductive Error (ε : Type) where
  /-- The call is not allowed in the present state. -/
  | state (error : StateError)
  /-- The option that would have been given this number lists this item, here by its description,
  more than once. -/
  | duplicateItem (option : Nat) (item : String)
  /-- A pre-selected option lists this item, here by its description, and no option of the grid
  does. -/
  | unknownItem (item : String)
  /-- The callback for solutions failed. -/
  | callback (error : ε)
  deriving DecidableEq, Repr

namespace Error

variable {ε : Type}

/-- Whether the call that ended with this error left the solver poisoned. -/
def isPoisoning : Error ε → Bool
  | .callback _ => true
  | _ => false

/-- An error of a call without callbacks, seen among the errors of calls that have them. -/
def widen : Error Empty → Error ε
  | .state error => .state error
  | .duplicateItem option item => .duplicateItem option item
  | .unknownItem item => .unknownItem item

/-- The text that tells a caller what is wrong, given the text of a failure of its callback. -/
def message (failure : ε → String) : Error ε → String
  | .state error => error.message
  | .duplicateItem option item =>
    "option #" ++ describe option ++ " lists item [" ++ item ++ "] more than once"
  | .unknownItem item => "pre-selected item [" ++ item ++ "] is not in the matrix"
  | .callback error => "solution callback failed: " ++ failure error

instance [Describe ε] : Describe (Error ε) where
  describe
    | .state error => "State(" ++ describe error ++ ")"
    | .duplicateItem option item =>
      "DuplicateItem \x7b option: " ++ describe option ++ ", item: " ++ describe item ++ " \x7d"
    | .unknownItem item => "UnknownItem(" ++ describe item ++ ")"
    | .callback error => "Callback(" ++ describe error ++ ")"

end Error

end ExactCover
