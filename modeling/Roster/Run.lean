/-
Runs: cycles with a memory.

A run loads what is remembered of the declaration's owner, carries out a cycle, and then remembers
what a real apply came to, or forgets the owner after a real destroy or when the remote does not
know the owner any more.  A preview plans against what is remembered and asks the remote nothing.
-/
import Roster.Cycle
import Roster.Declaration
import Roster.StoredState

namespace Roster

/-- What a run does. -/
inductive Mode where
  /-- Brings the remote to the declaration. -/
  | apply (rehearse : Bool)
  /-- Looks at the remote. -/
  | read
  /-- Deletes every declared relation and forgets the owner. -/
  | destroy (rehearse : Bool)
  deriving DecidableEq, Repr

/-- Whether the run only says what it would do. -/
def Mode.rehearses : Mode → Bool
  | apply rehearse => rehearse
  | read => false
  | destroy rehearse => rehearse

def Mode.changes : Mode → Bool
  | apply rehearse => !rehearse
  | read => false
  | destroy rehearse => !rehearse

/-- What a run comes to. -/
inductive RunResult where
  | reconciled (result : Reconciliation)
  | destroyed (applied : List Applied)

/-- Why a run ends early. -/
inductive RunError where
  | cycle (error : CycleError)
  | state (error : StateError)

def RunError.message : RunError → String
  | cycle error => error.message
  | state error => error.message

/-- What lies behind the error, in words. -/
def RunError.causes : RunError → List String
  | cycle error => error.causes
  | state error => error.causes

/-- A remote's state and a disk. -/
structure World (σ : Type) where
  remote : σ
  disk : Disk

/-- What a declaration would change. -/
structure Preview where
  plan : Plan
  /-- The unified diff of the remembered set and the declared one, empty if they agree. -/
  unified : String
  /-- Whether anything is remembered. -/
  hasPrevious : Bool
  reconciledAt : Option Timestamp

namespace Run

variable {σ α : Type}

def onRemote (x : Action σ CycleError α) : Action (World σ) RunError α := fun w =>
  let o := x w.remote
  ⟨o.result.mapError .cycle, { w with remote := o.state }, o.log⟩

/-- An action on the disk as a part of a run. -/
def onDisk (x : Action Disk StateError α) : Action (World σ) RunError α := fun w =>
  let o := x w.disk
  ⟨o.result.mapError .state, { w with disk := o.state }, o.log⟩

def load (home : Home) (owner : OwnerId) : Action (World σ) RunError StoredState :=
  onDisk fun d => ⟨StoredState.load home owner d, d, []⟩

/-- Forgets an owner that the remote does not know, and ends as the cycle did. -/
def forgetIfGone (home : Home) (x : Action σ CycleError α) : Action (World σ) RunError α := do
  match ← onRemote (Action.attempt x) with
  | .ok a => pure a
  | .error (.ownerNotFound owner) =>
    -- what is remembered of an owner that is gone would only stand in the way of the next one
    if ← onDisk (StoredState.remove home owner) then Action.note [.ownerForgotten owner]
    Action.fail (.cycle (.ownerNotFound owner))
  | .error e => Action.fail (.cycle e)

/-- Brings the remote to a declaration and remembers it. -/
def applied (remote : Remote σ) (home : Home) (now : Timestamp) (declaration : Declaration)
    (state : StoredState) : Action (World σ) RunError Reconciliation := do
  let result ← forgetIfGone home
    (Cycle.reconcile remote declaration.owner false state.declared declaration.desired state.view)
  onDisk (StoredState.save home declaration.owner
    ⟨some declaration.owner, some now, declaration.desired, result.observation.view⟩)
  pure result

def rehearsed (remote : Remote σ) (declaration : Declaration) (state : StoredState) :
    Action (World σ) RunError Reconciliation :=
  onRemote
    (Cycle.reconcile remote declaration.owner true state.declared declaration.desired state.view)

/-- Looks at the remote. -/
def looked (remote : Remote σ) (home : Home) (declaration : Declaration) (state : StoredState) :
    Action (World σ) RunError Reconciliation :=
  forgetIfGone home (Cycle.read remote declaration.owner declaration.desired state.view)

/-- Deletes every declared relation and forgets the owner, or rehearses it. -/
def cleared (remote : Remote σ) (home : Home) (declaration : Declaration) (rehearse : Bool) :
    Action (World σ) RunError (List Applied) := do
  let outcomes ← onRemote (Cycle.clear remote declaration.owner rehearse declaration.desired)
  if !rehearse then
    let _ ← onDisk (StoredState.remove home declaration.owner)
  pure outcomes

/-- Carries out a run. -/
def run (remote : Remote σ) (home : Home) (now : Timestamp) (declaration : Declaration)
    (mode : Mode) :
    Action (World σ) RunError RunResult := do
  let state ← load home declaration.owner
  match mode with
  | .apply true => return .reconciled (← rehearsed remote declaration state)
  | .apply false => return .reconciled (← applied remote home now declaration state)
  | .read => return .reconciled (← looked remote home declaration state)
  | .destroy rehearse => return .destroyed (← cleared remote home declaration rehearse)

/-- Says what a declaration would change. -/
def preview (home : Home) (declaration : Declaration) (d : Disk) : Except StateError Preview := do
  let state ← StoredState.load home declaration.owner d
  pure
    { plan := Plan.between state.declared declaration.desired
      unified := DesiredSet.unified state.declared declaration.desired declaration.owner.text
      hasPrevious := StoredState.isStored home declaration.owner d
      reconciledAt := state.reconciledAt }

end Run

end Roster
