import Mathlib.Data.List.Basic

/-! `promiseFunctions.chainPromises(callbackList)` (generic.js) is meant to
chain its callbacks with `.then`, starting from `null`:
`callbackList.reduce(function(chain, func){ chain ? chain.then(func) : func(); }, null)`.

The callback has no `return`, so it yields `undefined` whatever it runs. The
accumulator is `null` at the first step and `undefined` at every later one,
both falsy, so the `chain.then(func)` branch is never taken: every callback is
called in turn, with no argument and nothing waited for, up to the first one
that throws, and the result is `null` or `undefined`, never a promise
(`chainPromises_calls_each`).

Effects are explicit: a callback runs in a world `W` and may throw an `E`.
`call func` is `func()` and `register p func` is `p.then(func)`; both results
are discarded by the callback. -/
namespace OvsFrontend.Promises

/-- The values the accumulator of the `reduce` can hold: the initial `null`,
the `undefined` the callback returns, and a promise, the only truthy one. -/
inductive Chain (P : Type) where
  | null
  | undefined
  | promise (p : P)

section ChainPromises

variable {W E F P : Type} (call : F → W → Except E W) (register : P → F → W → Except E W)

/-- The callback of the `reduce`: `chain ? chain.then(func) : func();`, with
no `return`. -/
def chainStep (chain : Chain P) (func : F) (world : W) : Except E (Chain P × W) :=
  let ran := match chain with
    | .promise p => register p func world
    | .null | .undefined => call func world
  ran.map fun world => (.undefined, world)

/-- `list.reduce(callback, initial)`, threading the world and stopping at the
first throw. -/
def reduce (callback : Chain P → F → W → Except E (Chain P × W)) :
    Chain P → List F → W → Except E (Chain P × W)
  | chain, [], world => .ok (chain, world)
  | chain, func :: rest, world =>
    match callback chain func world with
    | .error thrown => .error thrown
    | .ok (chain, world) => reduce callback chain rest world

/-- `promiseFunctions.chainPromises(callbackList)`. -/
def chainPromises (callbackList : List F) (world : W) : Except E (Chain P × W) :=
  reduce (chainStep call register) .null callbackList world

/-- A falsy accumulator runs `func()` and leaves `undefined`. -/
theorem chainStep_falsy {chain : Chain P} (falsy : chain = .null ∨ chain = .undefined)
    (func : F) (world : W) :
    chainStep call register chain func world = (call func world).map fun world => (.undefined, world) := by
  rcases falsy with rfl | rfl <;> rfl

/-- From a falsy accumulator, `reduce` calls each callback in turn and keeps a
falsy accumulator: the one it started from on an empty list, else `undefined`. -/
theorem reduce_falsy (callbackList : List F) {chain : Chain P}
    (falsy : chain = .null ∨ chain = .undefined) (world : W) :
    reduce (chainStep call register) chain callbackList world =
      (callbackList.foldlM (fun world func => call func world) world).map
        fun world => (if callbackList.isEmpty then chain else .undefined, world) := by
  induction callbackList generalizing chain world with
  | nil => rfl
  | cons func rest ih =>
    rw [reduce, chainStep_falsy call register falsy, List.foldlM_cons]
    cases call func world with
    | error thrown => rfl
    | ok world =>
      show reduce (chainStep call register) .undefined rest world = _
      rw [ih (.inr rfl) world, ite_self]
      rfl

/-- `chainPromises` never calls `.then`: it calls every callback in order,
with no argument, up to the first that throws, and returns `null` for an
empty list and `undefined` otherwise. -/
theorem chainPromises_calls_each (callbackList : List F) (world : W) :
    chainPromises call register callbackList world =
      (callbackList.foldlM (fun world func => call func world) world).map
        fun world => (if callbackList.isEmpty then .null else .undefined, world) :=
  reduce_falsy call register callbackList (.inl rfl) world

end ChainPromises

end OvsFrontend.Promises
