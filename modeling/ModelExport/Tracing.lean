import ModelExport.Export

/-!
# Tracing — mapping operator by operator

`Session.trace` maps the operators of a graph one after another and reports what each of them adds.
It goes on after a fault: what was added before it stays.
-/

namespace ModelExport

/-- **What mapping one operator has added.** -/
structure TraceStep where
  nodes : List ModelNode
  weights : List ModelNode
  fault : Option Fault
  notices : List Notice

def TraceStep.between (before after : Draft) (fault : Option Fault) : TraceStep :=
  { nodes := (after.nodes.drop before.nodes.length).filterMap fun e => e.2.record
    weights := (after.weights.drop before.weights.length).map Prod.snd
    fault
    notices := after.notices.drop before.notices.length }

namespace Session

def traceFrom (r : Registry) (exportType : ExportType) : List OpNode → Draft →
    List TraceStep × Draft
  | [], d => ([], d)
  | op :: rest, d =>
    let o := run (Emit.mapNode r exportType op) d
    let fault := match o.result with
      | .ok _ => none
      | .error f => some f
    let (steps, final) := traceFrom r exportType rest o.draft
    (TraceStep.between d o.draft fault :: steps, final)

/-- **Maps the operators of a graph one after another**, for a fixed version. -/
def trace (s : Session) (opset : Int) (exportType : ExportType) (g : SourceGraph) :
    List TraceStep × Draft :=
  traceFrom s.registry exportType (g.nodes.map Prod.snd) (s.draft opset)

end Session

end ModelExport
