/-! The memory that a pattern takes, and its limit. A pattern becomes two automata over the bytes of
a text, one that reads forwards and one that reads backwards, and both have to stay within it. -/
namespace EntityQuery.Evaluation

structure Automaton where
  states : Nat
  /-- Ways out of its states that read nothing. -/
  branches : Nat := 0
  /-- Ways out of states that tell ranges of bytes apart. -/
  ranges : Nat := 0
deriving DecidableEq

namespace Automaton

def bytes (a : Automaton) : Nat := 32 * a.states + 4 * a.branches + 8 * a.ranges

def add (a b : Automaton) : Automaton :=
  ⟨a.states + b.states, a.branches + b.branches, a.ranges + b.ranges⟩

/-- Repeats `a`, through a state that leads into it and past it. -/
def loop (a : Automaton) : Automaton := a.add ⟨1, 2, 0⟩

/-- Any one character, forwards: the nine forms of its encoding share the states for their last
bytes. -/
def anyForwards : Automaton := ⟨9, 0, 16⟩

/-- Any one character, backwards: each of the nine forms is a chain of its own, one of one byte, one
of two, four of three and three of four, between a state that branches and one where they meet. -/
def anyBackwards : Automaton := ⟨29, 9, 0⟩

def ofChar (any : Automaton) (c : Char) : Automaton :=
  if c = '%' then any.loop else if c = '_' then any else ⟨c.utf8Size, 0, 0⟩

/-- The automaton for a pattern, in `frame` states that hold it together. -/
def ofPattern (frame : Nat) (any : Automaton) (pattern : List Char) : Automaton :=
  pattern.foldl (fun a c => a.add (ofChar any c)) ⟨frame, 0, 0⟩

end Automaton

/-- The bytes of the larger of the two automata for a pattern. Only the one that reads forwards has
states to mark where a match starts and ends. -/
def patternBytes (pattern : List Char) : Nat :=
  max (Automaton.ofPattern 6 .anyForwards pattern).bytes
    (Automaton.ofPattern 4 .anyBackwards pattern).bytes

def patternBytesMax : Nat := 10 * 1024 * 1024

end EntityQuery.Evaluation
