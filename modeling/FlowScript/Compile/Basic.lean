import FlowScript.Compile.Resolve
import FlowScript.Compile.Sections
import FlowScript.Flow.Validate
import FlowScript.Layout.Normalize
import FlowScript.Script.Render

/-!
Compilation of flows into script texts.
-/

namespace FlowScript

def Script.assemble (script : Script) : Compile String := do
  let settings ← read
  let warnings ← resolveReads (← get).registry settings.strictness script.unresolved
  warnings.forM Compile.report
  return Layout.normalize (script.render settings.bag) settings.indent

def Flow.compile (flow : Flow) : Compile String := do
  let script ← flow.script
  script.assemble

def Flow.compileWith (flow : Flow) (settings : Settings) :
    Except CompileError String × Array Event :=
  let (result, session) := flow.compile.runFrom settings .start
  (result, session.log)

end FlowScript
