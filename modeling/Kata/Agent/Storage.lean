import Mathlib.Logic.Function.Basic
import Mathlib.Tactic.Common

/-!
# Kata.Agent.Storage

The storages of a sandbox and their reference counts (`agent/src/sandbox.rs`), and `add_storages`
(`agent/src/storage/mod.rs`) as a process that other calls interleave with: the sandbox is locked
for each of `add_sandbox_storage`, `update_sandbox_storage` and `remove_sandbox_storage` alone, and
the count that tells a new storage from an existing one is read after the lock has been dropped.

A count is an `Arc<AtomicU32>` that the map shares with the states handed out, so counts live in a
store of their own and a state names one of them.
-/

namespace Kata.Agent

/-! ## The sandbox -/

structure StorageDevice where
  path : Option String := none
deriving DecidableEq, Repr

structure StorageState where
  count : Nat  -- which counter of the sandbox's store
  device : StorageDevice
deriving DecidableEq, Repr

structure Sandbox where
  counts : Nat → UInt32
  fresh : Nat  -- counters below have been handed out
  storages : String → Option StorageState

namespace Sandbox

def new : Sandbox where
  counts _ := 0
  fresh := 0
  storages _ := none

/-- Put a state with a new counter that is 1 into the map (`StorageState::from_device`). -/
def install (sb : Sandbox) (path : String) (device : StorageDevice) : StorageState × Sandbox :=
  let state : StorageState := { count := sb.fresh, device := device }
  (state,
    { counts := Function.update sb.counts sb.fresh 1
      fresh := sb.fresh + 1
      storages := Function.update sb.storages path (some state) })

def addSandboxStorage (sb : Sandbox) (path : String) : StorageState × Sandbox :=
  match sb.storages path with
  | some state => (state, { sb with counts := Function.update sb.counts state.count (sb.counts state.count + 1) })
  | none => sb.install path {}

def updateSandboxStorage (sb : Sandbox) (path : String) (device : StorageDevice) :
    Except StorageDevice StorageDevice × Sandbox :=
  match sb.storages path with
  | none => (.error device, sb)
  | some state => (.ok state.device, (sb.install path device).2)

structure Removed where
  result : Except String Bool
  cleaned : Option StorageDevice  -- the device whose `cleanup` has run
  sandbox : Sandbox

def removeSandboxStorage (cleanup : StorageDevice → Except String Unit) (sb : Sandbox) (path : String) : Removed :=
  match sb.storages path with
  | none => { result := .error s!"Sandbox storage with path {path} not found", cleaned := none, sandbox := sb }
  | some state =>
    let old := sb.counts state.count
    let sb := { sb with counts := Function.update sb.counts state.count (old - 1) }
    if old = 1 then
      { result := (cleanup state.device).map fun _ => true
        cleaned := some state.device
        sandbox := { sb with storages := Function.update sb.storages path none } }
    else { result := .ok false, cleaned := none, sandbox := sb }

/-- The reference count of a path, 0 for a path that is not there. -/
def refCount (sb : Sandbox) (path : String) : Nat :=
  match sb.storages path with
  | none => 0
  | some state => (sb.counts state.count).toNat

end Sandbox

/-! ## Concurrent calls -/

structure Storage where
  mountPoint : String
  driver : String
deriving DecidableEq, Repr

/-- Where a call of `add_storages` stands, between two of its steps. -/
inductive Pc where
  | next
  | added (storage : Storage) (state : StorageState)
  | creating (path : String)
  | created (path : String) (device : StorageDevice)
  | createFailed (path : String) (e : String)
  | updateFailed (path : String) (device : StorageDevice)
  | discarding (path : String) (device : StorageDevice)
  | done (held : Option String) (result : Except String (List String))
deriving DecidableEq

structure Call where
  pc : Pc
  rest : List Storage
  mountList : List String
deriving DecidableEq

/-- The sandbox, the calls of `add_storages` and an account of what they have done: how often each
path was added and removed, how many finished calls use it, and for each cleanup how many users the
path had left. -/
structure State where
  sandbox : Sandbox
  calls : List Call
  adds : String → Nat
  removes : String → Nat
  users : String → Nat
  cleanups : List (String × Nat)

namespace State

def new : State where
  sandbox := .new
  calls := []
  adds _ := 0
  removes _ := 0
  users _ := 0
  cleanups := []

def add (s : State) (path : String) : StorageState × State :=
  let (state, sandbox) := s.sandbox.addSandboxStorage path
  (state, { s with sandbox := sandbox, adds := Function.update s.adds path (s.adds path + 1) })

def logCleanup (s : State) (path : String) : State :=
  { s with cleanups := (path, s.adds path - s.removes path) :: s.cleanups }

variable (cleanup : StorageDevice → Except String Unit)

def remove (s : State) (path : String) : State :=
  let removed := s.sandbox.removeSandboxStorage cleanup path
  let s := { s with sandbox := removed.sandbox, removes := Function.update s.removes path (s.removes path + 1) }
  match removed.cleaned with
  | none => s
  | some _ => s.logCleanup path

/-- A call is through with a path and goes on to use it. -/
def settle (s : State) (path : String) : State :=
  { s with users := Function.update s.users path (s.users path + 1) }

/-- A user gives the path up and removes it. -/
def release (s : State) (path : String) : State :=
  ({ s with users := Function.update s.users path (s.users path - 1) }).remove cleanup path

end State

def pushPath (mountList : List String) (device : StorageDevice) : List String :=
  match device.path with
  | none => mountList
  | some path => if path = "" then mountList else mountList ++ [path]

section Steps

variable (handler : String → Bool) (cleanup : StorageDevice → Except String Unit)

/-- The next step of a call. `created` is what `create_device` returns, if that is the step. -/
def advance (s : State) (c : Call) (created : Except String StorageDevice) : Option (State × Call) :=
  match c.pc with
  | .next =>
    match c.rest with
    | [] => some (s, { c with pc := .done none (.ok c.mountList) })
    | storage :: rest =>
      let (state, s) := s.add storage.mountPoint
      some (s, { c with pc := .added storage state, rest := rest })
  | .added storage state =>
    -- The lock has been dropped: others may have changed the count since.
    if 1 < s.sandbox.counts state.count then
      some (s.settle storage.mountPoint, { c with pc := .next, mountList := pushPath c.mountList state.device })
    else if handler storage.driver then some (s, { c with pc := .creating storage.mountPoint })
    else
      -- The reference taken above is not given back.
      let e := s!"Failed to find the storage handler {storage.driver}"
      some (s, { c with pc := .done (some storage.mountPoint) (.error e) })
  | .creating path =>
    match created with
    | .ok device => some (s, { c with pc := .created path device })
    | .error e => some (s, { c with pc := .createFailed path e })
  | .created path device =>
    match s.sandbox.updateSandboxStorage path device with
    | (.ok _, sandbox) =>
      some (({ s with sandbox := sandbox }).settle path,
        { c with pc := .next, mountList := pushPath c.mountList device })
    | (.error device, sandbox) => some ({ s with sandbox := sandbox }, { c with pc := .updateFailed path device })
  | .createFailed path e => some (s.remove cleanup path, { c with pc := .done none (.error e) })
  | .updateFailed path device => some (s.remove cleanup path, { c with pc := .discarding path device })
  | .discarding path _ =>
    some (s.logCleanup path, { c with pc := .done none (.error "failed to update device for storage") })
  | .done _ _ => none

inductive Action where
  | call (storages : List Storage)
  | step (i : Nat) (created : Except String StorageDevice)
  | release (path : String)

/-- A path is released by users of it only. -/
def State.step (s : State) : Action → Option State
  | .call storages => some { s with calls := s.calls ++ [{ pc := .next, rest := storages, mountList := [] }] }
  | .step i created =>
    match s.calls[i]? with
    | none => none
    | some c => (advance handler cleanup s c created).map fun (s, c) => { s with calls := s.calls.set i c }
  | .release path => if 0 < s.users path then some (s.release cleanup path) else none

end Steps
end Kata.Agent
