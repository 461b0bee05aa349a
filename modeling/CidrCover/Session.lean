import CidrCover.Aggregation.Build

/-!
# Sessions

A session is a sequence of steps over a file tree. Each step finds the tree as the step before it
has left it.
-/

namespace CidrCover

/-- A step of a session. -/
inductive Step where
  /-- Writes a file as a whole. -/
  | replace (path content : String)
  /-- Writes a configuration. -/
  | save (path : String) (config : Config)
  /-- Writes the built-in configuration. -/
  | install (path : String) (force : Bool)
  /-- Reads a configuration. -/
  | load (path : String)
  /-- Reads a configuration, or takes the built-in one. -/
  | loadOrBuiltIn (path : String)
  /-- Generates a file. -/
  | generate (request : GenerateRequest)

/-- What a step results in. -/
inductive StepResult where
  | done
  | loaded (config : Config)

namespace Step

/-- Takes a step. -/
def perform (t : FileTree) : Step → FileTree × Run StepResult
  | replace path content =>
    let (t, written) := t.replaceFile path content
    (t, Run.ofFailure (written.map fun _ => .done))
  | save path config =>
    let (t, written) := config.save t path
    (t, Run.ofFailure (written.map fun _ => .done))
  | install path force =>
    let (t, run) := Config.install t path force
    (t, run.bind fun _ => Run.ok .done)
  | load path => (t, Run.ofFailure ((Config.load t path).map .loaded))
  | loadOrBuiltIn path => (t, (Config.loadOrBuiltIn t path).bind fun c => Run.ok (.loaded c))
  | generate request =>
    let (t, run) := request.generate t
    (t, run.bind fun _ => Run.ok .done)

/-- Takes steps one after another. -/
def performAll (t : FileTree) : List Step → FileTree × List (Run StepResult)
  | [] => (t, [])
  | s :: rest =>
    let (t, run) := s.perform t
    let (t, runs) := performAll t rest
    (t, run :: runs)

end Step

end CidrCover
