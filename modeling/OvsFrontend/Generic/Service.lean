import Mathlib.Data.List.Basic

/-! The value of the module `ovs/generic`. Its factory ends with
`GenericService.prototype = $.extend({}, properties, patchFunctions,
promiseFunctions, formatFunction); return new GenericService();`, so a
caller's `generic` is a `GenericService` whose members are those of the four
objects, and `Object.prototype`'s. The object literal after that `return`,
which lists the module's other functions (`crossFiller`, `xhrCompleted`,
`trySet`, `getCookie`, ...), is never reached.

Of the forty-seven names that literal lists, only the four regular
expressions and seven functions of `formatFunction` are members of
`generic` (`reachable_exports`); every other one reads `undefined`, and
calling it throws a `TypeError`. -/
namespace OvsFrontend.Service

/-- The keys of `properties`. -/
def properties : List String := ["ipRegex", "hostRegex", "nameRegex", "vdiskNameRegex"]

/-- The keys of `patchFunctions`. -/
def patchFunctions : List String := ["patchPrototypes"]

/-- The keys of `promiseFunctions`. -/
def promiseFunctions : List String := ["delay", "chainPromises"]

/-- The keys of `formatFunction`. -/
def formatFunction : List String :=
  ["round", "ceil", "setDecimals", "formatBytes", "formatSpeed", "formatNumber", "formatPercentage"]

/-- The keys `$.extend(target, objects...)` leaves on `target`: those of each
object in turn, a key already there kept in its place. Every value of the
four objects is defined, so none is skipped. -/
def extend (target : List String) (objects : List (List String)) : List String :=
  objects.foldl (fun keys object => keys ++ object.filter (· ∉ keys)) target

/-- The own keys of `GenericService.prototype`. -/
def prototypeKeys : List String :=
  extend [] [properties, patchFunctions, promiseFunctions, formatFunction]

/-- The keys of `Object.prototype`, from which `GenericService.prototype`
inherits. -/
def objectPrototypeKeys : List String :=
  ["constructor", "__defineGetter__", "__defineSetter__", "hasOwnProperty", "__lookupGetter__",
    "__lookupSetter__", "isPrototypeOf", "propertyIsEnumerable", "toString", "valueOf", "__proto__",
    "toLocaleString"]

/-- `generic[name]` is defined. `new GenericService()` has no own property:
its constructor only calls `this.patchPrototypes()`, which patches the
built-in prototypes. So the lookup goes on to `GenericService.prototype`, and
then to `Object.prototype`. -/
def has (name : String) : Bool :=
  name ∈ prototypeKeys || name ∈ objectPrototypeKeys

/-- The keys of the object literal after `return new GenericService();`. -/
def unreachableExports : List String :=
  ["ipRegex", "hostRegex", "nameRegex", "vdiskNameRegex", "alert", "alertError", "alertInfo",
    "alertSuccess", "alertWarning", "arrayFilterUnique", "arrayHasElementWithProperty", "ceil",
    "cleanDeviceName", "cleanObject", "crossFiller", "extract", "extractErrorMessage", "formatBytes",
    "formatNumber", "formatPercentage", "formatSpeed", "getCookie", "getHash", "getTimestamp", "ipSort",
    "isEmpty", "isFunction", "isObject", "keys", "log", "makeChildrenObservables", "merge", "objectEquals",
    "padRight", "recursiveSubscribe", "removeCookie", "removeElement", "round", "setCookie",
    "setDecimals", "smooth", "sortObject", "tryGet", "trySet", "validate", "xhrAbort", "xhrCompleted"]

/-- The message of the `TypeError` that calling `generic.name`, when it is
`undefined`, throws. -/
def notAFunction (name : String) : String := "generic." ++ name ++ " is not a function"

/-- `generic.name(...)`: the member's result when `generic` has it, and the
`TypeError` of calling `undefined` when it does not. -/
def callGeneric {α : Type} (name : String) (member : Unit → α) : Except String α :=
  if has name then .ok (member ()) else .error (notAFunction name)

/-- A `jqXHR` request handle as `xhrCompleted` reads it: its `state()`. -/
structure Request where
  state : String
  deriving DecidableEq, Repr

/-- `xhrCompleted(token)`: `!(token !== undefined && token.state &&
token.state() === 'pending')`. -/
def xhrCompleted : Option Request → Bool
  | none => true
  | some token => token.state != "pending"

theorem callGeneric_missing {α : Type} {name : String} (missing : has name = false) (member : Unit → α) :
    callGeneric name member = .error (notAFunction name) := by
  simp [callGeneric, missing]

/-- Of the names the unreachable object literal lists, `generic` has exactly
the regular expressions of `properties` and the functions of
`formatFunction`. -/
theorem reachable_exports :
    unreachableExports.filter has =
      ["ipRegex", "hostRegex", "nameRegex", "vdiskNameRegex", "ceil", "formatBytes", "formatNumber",
        "formatPercentage", "formatSpeed", "round", "setDecimals"] := by
  decide

end OvsFrontend.Service
