import Keyring.Manager.Task
import Keyring.Proofs.Manager.StartUp

/-!
The life of a store under managers that run one at a time. A command starts a manager, has it carry out an
operation, or is a turn of its background task. A manager that is started takes the place of the one before
and has published nothing yet.
-/
set_option autoImplicit false

namespace Keyring.Manager

open Manager.Action Fleet

inductive Command where
  | start
  | startWith (config : Config)
  | operation (op : Operation)
  | sweep

namespace Command

def enter (w : World) : Command → World
  | .start | .startWith _ => { w with published := .fresh }
  | .operation _ | .sweep => w

def action : Command → Action Answer
  | .start => do
    Manager.start
    return .finished
  | .startWith config => do return .algs (← Manager.startWith config)
  | .operation op => op.action
  | .sweep => do
    Task.sweep
    return .finished

def run (outside : Outside) (c : Command) (w : World) : Except KeyError Answer × World :=
  c.action.run outside (c.enter w)

end Command

def runAll (outside : Outside) : List Command → World → List (Except KeyError Answer) × World
  | [], w => ([], w)
  | c :: more, w =>
    let (outcome, w) := c.run outside w
    let (outcomes, w) := runAll outside more w
    (outcome :: outcomes, w)

theorem run_startWith (outside : Outside) (config : Config) (w : World) :
    (startWith config).run outside w = (do
      Action.ofExcept config.validate
      reload
      let created ← initKeys config.algorithms
      if created.isEmpty then return created
      else do
        Action.emit (.initialKeys created)
        return created : Action (List Alg)).run (Outside.under config.rotationPolicy outside) w :=
  run_withPolicy _ _ _ _

end Keyring.Manager
