import NotifyQueue.Model.System

/-!
# Stopping the processes

`main` of the worker pool and of the scheduler set `stop` on `SIGINT` and
`SIGTERM`.  A loop looks at it between two iterations and nowhere else: what it
has begun it ends.  `worker_loop` is between two iterations where it is about to
look at the first queue, the scheduler where it is about to promote.

A `Deployment` is the system with, for each loop, whether it has been told to
stop and whether it has returned.  A loop that has returned takes no step.
-/

namespace NotifyQueue

/-- A `while not stop.is_set()` loop. -/
inductive LoopState
  | looping | stopping | returned
deriving DecidableEq, Repr

structure Deployment where
  core : State
  workerLoop : WorkerId → LoopState
  schedulerLoop : SchedulerId → LoopState

inductive DeploymentAction
  | core (a : Action)
  /-- A signal, which sets the `stop` of the loop. -/
  | stopWorker (w : WorkerId)
  | stopScheduler (k : SchedulerId)
  /-- The loop finds its `stop` set. -/
  | leaveWorker (w : WorkerId)
  | leaveScheduler (k : SchedulerId)

/-- Between two iterations of `worker_loop`. -/
def WorkerPc.atLoopHead : WorkerPc → Bool
  | .popping rest => decide (rest = priorityOrder)
  | _ => false

/-- Between two ticks. -/
def SchedulerPc.atLoopHead : SchedulerPc → Bool
  | .promoting => true
  | _ => false

namespace Deployment

/-- Whether the loop that takes a step has not returned. -/
def runs (d : Deployment) : Action → Bool
  | .worker w _ => decide (d.workerLoop w ≠ .returned)
  | .scheduler k _ => decide (d.schedulerLoop k ≠ .returned)
  | _ => true

def setWorkerLoop (d : Deployment) (w : WorkerId) (l : LoopState) : Deployment :=
  { d with workerLoop := Function.update d.workerLoop w l }

def setSchedulerLoop (d : Deployment) (k : SchedulerId) (l : LoopState) : Deployment :=
  { d with schedulerLoop := Function.update d.schedulerLoop k l }

end Deployment

def deploymentStep (cfg : Settings) (d : Deployment) :
    DeploymentAction → Option (Deployment × List Event)
  | .core a =>
    if d.runs a then (step cfg d.core a).map (fun (s, es) => ({ d with core := s }, es)) else none
  | .stopWorker w =>
    if d.workerLoop w = .looping then some (d.setWorkerLoop w .stopping, []) else none
  | .stopScheduler k =>
    if d.schedulerLoop k = .looping then some (d.setSchedulerLoop k .stopping, []) else none
  | .leaveWorker w =>
    if d.workerLoop w = .stopping ∧ (d.core.workers w).pc.atLoopHead = true then
      some (d.setWorkerLoop w .returned, [])
    else none
  | .leaveScheduler k =>
    if d.schedulerLoop k = .stopping ∧ (d.core.schedulers k).atLoopHead = true then
      some (d.setSchedulerLoop k .returned, [])
    else none

/-- Empty tables and every loop about to start; a loop that is never started has
returned from the outset. -/
structure DeploymentInitial (d : Deployment) : Prop where
  core : Initial d.core
  workerLoop : ∀ w, d.workerLoop w ≠ .stopping
  schedulerLoop : ∀ k, d.schedulerLoop k ≠ .stopping

def deployment (cfg : Settings) : Lts.System Deployment DeploymentAction Event :=
  ⟨DeploymentInitial, deploymentStep cfg⟩

/-- Everything has been told to stop, and every loop has returned. -/
structure Deployment.Stopped (d : Deployment) : Prop where
  workers : ∀ w, d.workerLoop w = .returned
  schedulers : ∀ k, d.schedulerLoop k = .returned

end NotifyQueue
