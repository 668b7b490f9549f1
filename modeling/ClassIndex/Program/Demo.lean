import ClassIndex.Code.Assembly

/-!
# The demonstration

A small program to index: a module with a method and an alias of it, and a class below another one
that includes the module and has a method of its own.
-/

namespace ClassIndex

namespace Demo

/-- The sequence with the definition of a class in the current scope at its end. The body is
completed by leaving it, and the class stays on the stack. -/
def appendClass (s : Sequence) (name : String) (superclass : Option String) (body : Sequence)
    (flags : ClassFlags) : Sequence :=
  let opened := (s.putSpecial 3).putNil
  let inherited := match superclass with
    | some superclass => opened.getConstant superclass
    | none => opened
  inherited.defineClass name body.leave flags

/-- A method with a parameter of every kind. -/
def greet : Sequence :=
  (Sequence.start "greet" .method)
    |>.withPath "demo/greeting.rb"
    |>.withLocals ["name", "greeting", "rest", "loud", "times", "opts"]
    |>.withParameters
      { lead := some 1
        defaults := some [.string "hello"]
        rest := some 2
        keywords := some [.required "loud", .optional "times" (.integer 1)]
        keywordRest := some 5 }
    |>.putNil
    |>.leave

/-- The body of a module that defines `greet` and gives it a second name. -/
def greeting : Sequence :=
  (Sequence.start "<module:Greeting>" .classBody)
    |>.withPath "demo/greeting.rb"
    |>.putSymbol "greet"
    |>.putBody greet
    |>.call "core#define_method" 2
    |>.pop
    |>.putSymbol "hi"
    |>.putSelf
    |>.putSymbol "greet"
    |>.call "instance_method" 1
    |>.call "define_method" 2

/-- The body of a class without members. -/
def base : Sequence :=
  (Sequence.start "<class:Base>" .classBody)
    |>.withPath "demo/person.rb"
    |>.putNil

/-- A method without parameters. -/
def create : Sequence :=
  (Sequence.start "create" .method)
    |>.withPath "demo/person.rb"
    |>.putNil
    |>.leave

/-- The body of a class that includes the module. -/
def person : Sequence :=
  (Sequence.start "<class:Person>" .classBody)
    |>.withPath "demo/person.rb"
    |>.putSelf
    |>.putNil
    |>.getConstant "Greeting"
    |>.call "include" 1
    |>.putSelf
    |>.putSymbol "create"
    |>.putBody create
    |>.call "core#define_singleton_method" 3

/-- The whole program. -/
def program : Sequence :=
  let start := (Sequence.start "<main>" .top).withPath "demo/main.rb"
  let withGreeting := (appendClass start "Greeting" none greeting .moduleBody).pop
  let withBase := (appendClass withGreeting "Base" none base .empty).pop
  (appendClass withBase "Person" (some "Base") person .withSuperclass).leave

end Demo

end ClassIndex
