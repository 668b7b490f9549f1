import ClassIndex.Machine.Arguments
import ClassIndex.Machine.Event
import Std.Data.TreeMap

/-!
# Processors

A `Processor` acts on a declaration. It may change the state of its host, report events and fail.
`Processors` are kept by instruction and, for calls, by the name of the invoked method, the
qualifier. No qualifier belongs to two processors of one instruction, so a second map, from
qualifiers to positions, finds the processor of a qualified instruction at once.
-/

namespace ClassIndex

/-- The state that processors act on, and the events reported so far. -/
structure Host (σ : Type) where
  state : σ
  events : Array Event := #[]

/-- Actions of processors. A failed action keeps what it did before it failed. -/
abbrev ActionM (σ : Type) : Type → Type :=
  ExceptT RunError (StateM (Host σ))

namespace ActionM

variable {σ α : Type}

/-- Reports an event. -/
def report (event : Event) : ActionM σ Unit :=
  modify fun host => { host with events := host.events.push event }

/-- The state of the host. -/
def state : ActionM σ σ :=
  return (← get).state

/-- Changes the state of the host. -/
def update (change : σ → α × σ) : ActionM σ α :=
  modifyGet fun host =>
    let (result, state) := change host.state
    (result, { host with state := state })

end ActionM

/-- Turns a declaration into an entry of the host's state. -/
abbrev Processor (σ : Type) : Type :=
  Arguments → ActionM σ Value

/-- A processor with the calls that it takes. -/
structure Registration (σ : Type) where
  qualifiers : List String
  processor : Processor σ

/-- The positions of the processors of one instruction, by qualifier. -/
abbrev QualifierIndex : Type :=
  Std.TreeMap String Nat

namespace QualifierIndex

/-- The first qualifier that is in the index already or stands twice in the list. -/
def firstOverlap? (index : QualifierIndex) (earlier : List String) : List String → Option String
  | [] => none
  | qualifier :: rest =>
    if index.contains qualifier || earlier.contains qualifier then
      some qualifier
    else
      index.firstOverlap? (qualifier :: earlier) rest

/-- Enters qualifiers, all of them at one position. -/
def enter (index : QualifierIndex) (qualifiers : List String) (position : Nat) : QualifierIndex :=
  qualifiers.foldl (fun index qualifier => index.insert qualifier position) index

end QualifierIndex

/-- Processors by instruction and qualifier. An instruction may have an index and no processors: a
registration that is refused leaves its instruction in `qualified`. -/
structure Processors (σ : Type) where
  /-- The processors of each instruction, in order of registration. -/
  entries : Std.TreeMap Opcode (Array (Registration σ))
  /-- The position of the processor of each qualifier of an instruction. -/
  qualified : Std.TreeMap Opcode QualifierIndex

namespace Processors

variable {σ : Type}

/-- No processors at all. -/
def empty : Processors σ where
  entries := {}
  qualified := {}

instance : Inhabited (Processors σ) := ⟨empty⟩

/-- The processors of an instruction, none if it has no entry. -/
def entriesAt (processors : Processors σ) (opcode : Opcode) : Array (Registration σ) :=
  processors.entries[opcode]?.getD #[]

/-- The index of an instruction, empty if it has none. -/
def indexAt (processors : Processors σ) (opcode : Opcode) : QualifierIndex :=
  processors.qualified[opcode]?.getD {}

/-- Registers a processor for an instruction and some qualifiers. It is refused if one of the
qualifiers is taken. The instruction has an index afterwards, whether or not it was refused. -/
def register (processors : Processors σ) (opcode : Opcode) (qualifiers : List String)
    (processor : Processor σ) : Except RegistrationError Unit × Processors σ :=
  let index := processors.indexAt opcode
  match index.firstOverlap? [] qualifiers with
  | some qualifier =>
    (.error (.overlappingQualifier opcode qualifier),
      { processors with qualified := processors.qualified.insert opcode index })
  | none =>
    let entries := processors.entriesAt opcode
    (.ok (),
      { entries := processors.entries.insert opcode (entries.push ⟨qualifiers, processor⟩)
        qualified := processors.qualified.insert opcode (index.enter qualifiers entries.size) })

/-- Registers processors one after another, up to the first one that is refused. -/
def registerAll (processors : Processors σ) :
    List (Opcode × List String × Processor σ) → Except RegistrationError Unit × Processors σ
  | [] => (.ok (), processors)
  | (opcode, qualifiers, processor) :: rest =>
    match processors.register opcode qualifiers processor with
    | (.ok (), after) => after.registerAll rest
    | (.error error, after) => (.error error, after)

/-- The processor for an instruction and a qualifier. Without a qualifier it is the first one of
the instruction. -/
def find? (processors : Processors σ) (opcode : Opcode) (qualifier : Option String) :
    Option (Registration σ) := do
  let entries ← processors.entries[opcode]?
  match qualifier with
  | none => entries[0]?
  | some qualifier =>
    let index ← processors.qualified[opcode]?
    let position ← index[qualifier]?
    entries[position]?

def isRegistered (processors : Processors σ) (opcode : Opcode) (qualifier : Option String) : Bool :=
  (processors.find? opcode qualifier).isSome

/-- The number of registered processors. -/
def size (processors : Processors σ) : Nat :=
  processors.entries.foldl (fun count _ entries => count + entries.size) 0

/-- There are no processors as long as no instruction has an entry. -/
def isEmpty (processors : Processors σ) : Bool :=
  processors.entries.isEmpty

/-- Hands arguments to the processor for an instruction. Without one the result is nil. -/
def dispatch (processors : Processors σ) (opcode : Opcode) (qualifier : Option String)
    (values : List Value) : ActionM σ Value :=
  match processors.find? opcode qualifier with
  | none => do
    ActionM.report (.noProcessor opcode qualifier)
    return .nil
  | some entry => entry.processor ⟨opcode.name, values⟩

end Processors

end ClassIndex
