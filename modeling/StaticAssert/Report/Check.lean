import StaticAssert.Compile.Unit
import StaticAssert.Report.Emitter

/-!
# Checking a source

A check compiles a source into a sink of the usual capacity and reports what it found:
every record, then the error that stopped the compilation, then a summary that counts
both. The outcome is a success only if there was nothing to report.
-/

set_option autoImplicit false

namespace StaticAssert

structure CheckOutcome where
  /-- Records in the sink, also those from before the error. -/
  diagnostics : Nat
  error? : Option CompileError
  deriving DecidableEq

namespace CheckOutcome

def count (o : CheckOutcome) : Nat := o.diagnostics + o.error?.toList.length

def isSuccess (o : CheckOutcome) : Bool := o.diagnostics = 0 && o.error?.isNone

def exitCode (o : CheckOutcome) : Nat := if o.isSuccess then 0 else 1

end CheckOutcome

structure Compiled where
  source : String
  records : List Diagnostic
  error? : Option CompileError

namespace Compiled

def ofSource (source : String) : Compiled :=
  match compile source (.empty Sink.defaultCapacity) with
  | (.ok (), sink) => ⟨source, sink.records.toList, none⟩
  | (.error error, sink) => ⟨source, sink.records.toList, some error⟩

def outcome (c : Compiled) : CheckOutcome := ⟨c.records.length, c.error?⟩

end Compiled

def check (source : String) (colours : Bool) : Writing CheckOutcome := do
  let compiled := Compiled.ofSource source
  Writing.emitAll colours source compiled.records
  compiled.error?.forM fun error => Writing.emitError colours error.message
  Writing.emitSummary colours compiled.outcome.count
  Writing.flush
  return compiled.outcome

end StaticAssert
