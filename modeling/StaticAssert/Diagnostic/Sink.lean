import StaticAssert.Diagnostic.Basic

/-!
# Bounded stores of diagnostics

A sink keeps records in the order of their arrival, up to its capacity. A record that
does not fit is refused and changes nothing.
-/

set_option autoImplicit false

namespace StaticAssert

structure Sink where
  capacity : Nat
  records : Array Diagnostic
  deriving DecidableEq

structure SinkFull where
  capacity : Nat
  deriving DecidableEq

def SinkFull.message (full : SinkFull) : String :=
  "diagnostic sink is full (" ++ Nat.repr full.capacity ++ " records)"

namespace Sink

def defaultCapacity : Nat := 256

def empty (capacity : Nat) : Sink := ⟨capacity, #[]⟩

def size (s : Sink) : Nat := s.records.size

def isEmpty (s : Sink) : Bool := s.records.isEmpty

def push (s : Sink) (d : Diagnostic) : Except SinkFull Sink :=
  if s.size < s.capacity then .ok { s with records := s.records.push d }
  else .error ⟨s.capacity⟩

theorem push_of_lt {s : Sink} (d : Diagnostic) (h : s.size < s.capacity) :
    s.push d = .ok ⟨s.capacity, s.records.push d⟩ := if_pos h

theorem push_of_le {s : Sink} (d : Diagnostic) (h : s.capacity ≤ s.size) :
    s.push d = .error ⟨s.capacity⟩ := if_neg (Nat.not_lt.mpr h)

end Sink
end StaticAssert
