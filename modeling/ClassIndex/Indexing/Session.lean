import ClassIndex.Indexing.Declarations
import ClassIndex.Machine.Run

/-!
# Indexing

An indexer is a machine whose processors are the declarations and whose host is the class model.
Indexing a sequence records every class, module, method and mixin that it declares.
-/

namespace ClassIndex

namespace Indexing

/-- As deep as bodies may nest in practice. -/
def maxLevels : Nat := 4096

/-- An indexer that has not indexed anything. -/
def start (root : Value) (host : Host Model) : Machine Model where
  memory := .ofRoot root
  host := host

/-- Indexes a sequence whose bodies nest at most `levels` deep, and yields the value that its top
level leaves. -/
def index (levels : Nat) (body : Sequence) : RunM Model Value :=
  Machine.runProgram Declarations.processors levels body

/-- What came of indexing one sequence. -/
structure Outcome where
  body : Sequence
  result : Except RunError Value

/-- The event that reports an outcome. -/
def Outcome.event (outcome : Outcome) : Event :=
  match outcome.result with
  | .ok _ => .indexed outcome.body
  | .error error => .failed outcome.body error

/-- Indexes a sequence with an indexer of its own and reports the outcome. -/
def indexOne (levels : Nat) (root : Value) (body : Sequence) :
    StateT (Host Model) Option Outcome := fun host => do
  let (result, machine) ← (index levels body).run.run (start root host)
  let outcome : Outcome := ⟨body, result⟩
  return (outcome, { machine.host with events := machine.host.events.push outcome.event })

/-- Indexes sequences into one model, each with an indexer of its own. One that fails does not keep
the others from being indexed. -/
def indexAll (levels : Nat) (root : Value) (bodies : List Sequence) :
    StateT (Host Model) Option (List Outcome) :=
  bodies.mapM (indexOne levels root)

end Indexing

end ClassIndex
