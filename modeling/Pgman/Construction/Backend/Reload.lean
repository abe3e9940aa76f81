import Pgman.Construction.Backend.Registry

/-!
# Reloading the configuration file

`reload.go`.  A reload goes through the pools of the file in the order of their names and changes or
adds each, and then takes out the pools that the file does not have.  What fails is collected, and
the rest of the reload goes on.  The critical sections of the registry are taken one after the
other; nobody else takes one in between.  The pools that are displaced are drained in the
background: the model keeps which pools are handed over for that.
-/

namespace Pgman

open Net (Text)

structure ReloadResult where
  added : List Text
  removed : List Text
  reconfigured : List Text
  unchanged : List Text
  deriving DecidableEq

inductive ReloadError
  | reconfigure (name : Text) (err : RegistryError)
  | add (name : Text) (err : RegistryError)
  | remove (name : Text) (err : RegistryError)
  deriving DecidableEq

/-- A reload on its way. -/
structure Reload where
  registry : PoolRegistry
  result : ReloadResult
  errs : List ReloadError
  /-- the calls of `drainPoolsInBackground` -/
  drained : List (Text × List ℕ)
  deriving DecidableEq

namespace Reload

def start (r : PoolRegistry) : Reload := ⟨r, ⟨[], [], [], []⟩, [], []⟩

/-- One round of the loop over the pools of the file; `current` are the names at the beginning. -/
def applyPool (now : ℤ) (current : List Text) (s : Reload) (p : Text × PoolConfig) : Reload :=
  if current.contains p.1 then
    match s.registry.reconfigure now p.1 p.2 with
    | .error err => { s with errs := s.errs ++ [.reconfigure p.1 err] }
    | .ok (old, true, r) =>
      { s with
        registry := r
        result := { s.result with reconfigured := s.result.reconfigured ++ [p.1] }
        drained := s.drained ++ [(p.1, old)] }
    | .ok (_, false, r) =>
      { s with
        registry := r
        result := { s.result with unchanged := s.result.unchanged ++ [p.1] } }
  else
    match s.registry.add now p.1 p.2 with
    | .error err => { s with errs := s.errs ++ [.add p.1 err] }
    | .ok r =>
      { s with registry := r, result := { s.result with added := s.result.added ++ [p.1] } }

/-- One round of the loop over the names at the beginning. -/
def retirePool (pools : Table Text PoolConfig) (s : Reload) (name : Text) : Reload :=
  if (pools.get name).isSome then s
  else
    match s.registry.remove name with
    | .error err => { s with errs := s.errs ++ [.remove name err] }
    | .ok (old, r) =>
      { s with
        registry := r
        result := { s.result with removed := s.result.removed ++ [name] }
        drained := s.drained ++ [(name, old)] }

/-- The reload of an accepted file. -/
def run (now : ℤ) (pools : Table Text PoolConfig) (r : PoolRegistry) : Reload :=
  r.poolNames.foldl (retirePool pools) (pools.pairs.foldl (applyPool now r.poolNames) (start r))

end Reload

/-- `applyConfigReload`: it returns no error if it is through and none was collected. -/
def applyConfigReload (files : Files) (path : Text) (now : ℤ) (r : PoolRegistry) :
    Except ConfigError Reload :=
  (loadConfig files path).map fun cfg => Reload.run now cfg.pools r

end Pgman
