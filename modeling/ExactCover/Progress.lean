import ExactCover.Decimal.Fixed
import ExactCover.Decimal.Shortest
import ExactCover.Text.Describe
import ExactCover.Trace

/-!
# Estimating how far a search has come

How large a search will be is not known before it is over, but a guess can be made at any moment:
the branch on a column with `k` rows splits what it was given into `k` equal shares, and each row
that is done accounts for one of them. A `Reporter` keeps, for every open branch, the share of one
of its rows and the progress that was made before the row at hand. The estimate lies in the middle
of the share at hand.

A reporter is told of the events of a search and does nothing by itself. When a row is selected it
says whether a report is due, and what is done with reports is left to the caller. It goes on
counting rows over any number of searches, while each search starts the estimate anew.

The estimate needs a few operations on numbers and no laws of them. They come from a class, so the
same reporter runs on floating point numbers and on fractions.
-/

set_option autoImplicit false

namespace ExactCover

/-- The arithmetic that estimates are made in. -/
class Scale (α : Type) extends Add α, Mul α, Div α where
  /-- The number that stands for a count. -/
  ofCount : Nat → α

/-- Counts that fit into a machine word are rounded to the nearest floating point number. -/
instance : Scale Float where
  ofCount n := if n < Nat.pow 2 64 then n.toUInt64.toFloat else Float.ofNat n

/-- An open branch of a search. -/
structure Level (α : Type) where
  /-- The number of rows of this branch times that of each branch around it. -/
  product : α
  /-- The progress when the branch was entered. -/
  initial : α
  /-- The progress when the row at hand was selected. -/
  current : α
  /-- How many rows have been selected. -/
  row : Nat
  deriving Repr

namespace Level

variable {α : Type} [Scale α]

/-- The whole search, which is a branch with one row. -/
def root : Level α := ⟨Scale.ofCount 1, Scale.ofCount 0, Scale.ofCount 0, 0⟩

/-- A branch with the given number of rows inside the row at hand. -/
def nested (level : Level α) (rows : Nat) : Level α :=
  ⟨level.product * Scale.ofCount rows, level.current, level.current, 0⟩

/-- Goes on to the next row. -/
def nextRow (level : Level α) : Level α :=
  { level with
    current := level.initial + Scale.ofCount level.row / level.product
    row := level.row + 1 }

/-- The middle of the share of the row at hand. -/
def estimate (level : Level α) : α :=
  level.current + Scale.ofCount 1 / Scale.ofCount 2 / level.product

end Level

/-- Estimates progress and has it reported at regular intervals. -/
structure Reporter (α : Type) where
  /-- The number of rows between two reports. Zero means that there are none. -/
  interval : Nat
  /-- The branches around the current one, the innermost first. -/
  stack : List (Level α)
  /-- The current branch, once a search or a branch has been seen. -/
  level : Option (Level α)
  /-- The number of rows selected so far. -/
  tried : Nat
  deriving Repr

/-- The number of rows selected and the estimate at that moment, if there is one. -/
structure Report (α : Type) where
  /-- The number of rows selected. -/
  tried : Nat
  /-- The estimated part of the search that is done. -/
  progress : Option α
  deriving Repr

namespace Reporter

variable {α : Type} [Scale α]

/-- A reporter that has seen nothing. -/
def start (interval : Nat) : Reporter α := ⟨interval, [], none, 0⟩

/-- The estimated part of the search that is done, unless nothing has started. -/
def progress (reporter : Reporter α) : Option α := reporter.level.map (·.estimate)

/-- A search starts. Branches that an interrupted search left open are forgotten. -/
def started (reporter : Reporter α) : Reporter α :=
  { reporter with stack := [], level := some .root }

/-- A branch with the given number of rows begins. -/
def entered (reporter : Reporter α) (rows : Nat) : Reporter α :=
  let parent := reporter.level.getD .root
  { reporter with stack := parent :: reporter.stack, level := some (parent.nested rows) }

/-- A row of the current branch is selected. -/
def rowSelected (reporter : Reporter α) : Reporter α :=
  { reporter with level := reporter.level.map (·.nextRow), tried := reporter.tried + 1 }

/-- The current branch ends. -/
def ended (reporter : Reporter α) : Reporter α :=
  match reporter.stack with
  | [] => reporter
  | parent :: rest => { reporter with stack := rest, level := some parent }

/-- The report that is due after a row was selected. -/
def due? (reporter : Reporter α) : Option (Report α) :=
  if reporter.interval ≠ 0 ∧ reporter.tried % reporter.interval = 0 then
    some ⟨reporter.tried, reporter.progress⟩
  else none

/-- The observer that keeps a reporter in some part of the world and passes its reports on. -/
def trace {σ τ : Type} (get : σ → Reporter α) (set : Reporter α → σ → σ)
    (report : Report α → Call σ τ Unit) : Trace σ τ where
  started := modify fun world => set (get world).started world
  entered rows := modify fun world => set ((get world).entered rows) world
  rowSelected := do
    modify fun world => set (get world).rowSelected world
    match (get (← getThe σ)).due? with
    | some due => report due
    | none => pure ()
  ended := modify fun world => set (get world).ended world

end Reporter

/-- Estimates are written with a point alone from `0.0001` to just below `10 ^ 16`. -/
def estimateRange : Decimal.Positional := ⟨-4, 15⟩

/-- The text of an estimate that need not be there. -/
def describeEstimate (write : Float → String) (progress : Option Float) : String :=
  (progress.map write).getD "NaN"

/-- The line that a report adds to a log. The estimate has five places. -/
def Report.logLine (report : Report Float) : String :=
  "Progress " ++ describe report.tried ++ "cu " ++
    describeEstimate (Decimal.fixed 5) report.progress

instance : Describe (Reporter Float) where
  describe reporter :=
    "ProgressReporter \x7b interval: " ++ describe reporter.interval ++ ", depth: "
      ++ describe reporter.stack.length ++ ", items_tried: " ++ describe reporter.tried
      ++ ", progress: " ++ describeEstimate (Decimal.shortest estimateRange) reporter.progress
      ++ " \x7d"

end ExactCover
