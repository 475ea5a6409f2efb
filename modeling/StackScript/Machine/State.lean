import StackScript.Host.Bridge
import StackScript.Table

/-!
# The state of the machine

All calls share one stack of values. The locals of the running function begin at the *base*; a
suspended caller is a *frame*, which knows its own base and where to go on. Arguments are collected
above the start of a *window*, and become the first locals of the function called.

What a run leaves behind is the *store*: globals, heap and host. All else is gone when it ends, save
the host types resolved by then, which are never asked for again.
-/

namespace StackScript

/-- The globals of a program in order. One that is declared but was never given a value has none. -/
structure Globals where
  entries : Table (Option Value)

namespace Globals

/-- Globals that are declared only. -/
def declared (names : List String) : Globals :=
  ⟨names.map fun name => (name, none)⟩

/-- The names of the globals: the declared ones, then others in the order in which they came up. -/
def names (g : Globals) : List String :=
  g.entries.names

/-- The value of a global. -/
def get? (g : Globals) (name : String) : Option Value :=
  (g.entries.lookup name).join

/-- Gives a global a value. -/
def set (g : Globals) (name : String) (value : Value) : Globals :=
  ⟨g.entries.insert name (some value)⟩

end Globals

/-- What a run may change for good. -/
structure Store (σ : Type) where
  globals : Globals
  world : World
  host : σ

/-- A suspended caller. -/
structure Frame where
  base : Nat
  returnAddress : Nat
  deriving DecidableEq

/-- The machine, over a host whose state is a `σ`. -/
structure Machine (σ : Type) where
  stack : Array Value
  /-- The index in the stack of the first local of the running function. -/
  base : Nat
  /-- The starts of the open windows, innermost first. -/
  windows : List Nat
  /-- The suspended callers, innermost last. -/
  frames : Array Frame
  /-- Host types by the names under which they were asked for, latest first. -/
  resolved : List (String × TypeHandle)
  store : Store σ

namespace Machine

variable {σ : Type}

/-- A machine that has not run yet. -/
def fresh (store : Store σ) : Machine σ := ⟨#[], 0, [], #[], [], store⟩

/-- Drops whatever a run left on the stack. -/
def reset (m : Machine σ) : Machine σ :=
  { m with stack := #[], base := 0, windows := [], frames := #[] }

end Machine

end StackScript
