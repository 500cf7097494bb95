import Shaula.RunnerOperation.Destroy

/-! # Destroy for the runner maximum lifetime

The runner resource first, even while a job is running, then the runner registration.  Only the
ordering differs from retirement, never the proof requirements.
-/

namespace Shaula

open Core Library

namespace RunnerOperation

/-- Deregisters a runner whose resources are gone. -/
def deregister (generation : GenerationRecord) (now : Int) : Routine DestroyOutcome := do
  let verdict : Registration ← ask (.remove generation .afterResourcesDestroyed)
  match verdict with
  | .gone =>
    let time : Int ← ask (.nowAfter now)
    ask (.generationAdvance generation.id .destroyed time)
    return .destroyed
  | .busy | .unavailable => return .pending
  -- A successful Create always retains its registration identity.
  | .removable | .unprovable | .unrecorded => quarantine generation.id now

/-- One resource-first expiry step.  Registration removal follows and never gates termination of
an overlong job. -/
def expire (self : RunnerOperation) (generation : GenerationRecord) (now : Int) :
    Routine DestroyOutcome := do
  let requested : Bool ← ask (.requestExpiry generation.id now)
  if requested = false then return .pending
  else
    let lifetime : RunnerLifetime ← ask (.generationLifetime generation.id)
    if lifetime.resourcesDestroyedAt.isSome then deregister generation now
    else
      let due : Bool ← ask (.backoffDue generation.id now)
      if generation.state = .destroyPending ∧ due = false then return .pending
      else
        match ← self.destroyProof generation with
        | .error _ => quarantine generation.id now
        | .ok proof =>
          let _ ← walk generation.id generation.state .destroying now
          match ← self.destroyResources generation proof now with
          | .destroyed time =>
            ask (.resourcesDestroyed generation.id time)
            deregister generation now
          | .failed time _ =>
            ask (.generationAdvance generation.id .destroyPending time)
            return .pending
          | .foreign => quarantine generation.id now

end RunnerOperation

end Shaula
