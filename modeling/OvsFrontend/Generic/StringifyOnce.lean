import Mathlib.Data.List.GetD
import Mathlib.Data.List.Nodup
import OvsFrontend.Generic.NumberToString

/-! `JSON.stringifyOnce(obj, replacer, space)` (generic.js, installed by
`patchPrototypes`) prints a value that may contain cycles. It calls
`JSON.stringify` with a replacer that keeps every object it has seen in
`cache`: an object met again is replaced by `undefined`, so it is left out of
an object and printed as `null` in an array.

`JSON.stringify` is modelled after ECMA-262 (`SerializeJSONProperty`,
`SerializeJSONObject`, `SerializeJSONArray`, `QuoteJSONString`) on a heap of
arrays and ordinary objects, with a replacer function that carries state. It
throws a `TypeError` on an object that is already on the path being printed.

Two results:
- `stringifyOnce` ends with a text on every heap, cyclic or not, within as
  many nested calls as the heap has objects (`stringifyOnce_total`);
- while `JSON.stringify` meets no object twice, `stringifyOnce` prints what
  `JSON.stringify` prints (`stringifyOnce_eq_stringify`). An object met twice
  without a cycle, one shared by two properties, is printed only the first
  time: the cache is never emptied, so "circular reference" in the source's
  comment covers every repeated reference.

Left out: the caller's own `replacer` (the model is `stringifyOnce(obj)` and
`stringifyOnce(obj, undefined, space)`), `toJSON` methods, boxed primitives,
symbols and bigints. Numbers are integers, printed by `Number::toString`. A
string is a sequence of Unicode scalar values, so no lone surrogate is
escaped. -/
namespace OvsFrontend.Json

open OvsFrontend.NumberToString

/-- A JavaScript value as `JSON.stringify` sees it. Objects live in a heap and
are referred to by their position in it; a function is never printed. -/
inductive JsValue where
  | undefined
  | null
  | bool (b : Bool)
  | number (n : Int)
  | string (s : String)
  | object (ref : Nat)
  | function
  deriving DecidableEq, Repr

/-- An object of the heap: an array, or an ordinary object with its own
enumerable string-keyed properties in the order `EnumerableOwnProperties`
lists them. -/
inductive JsObject where
  | array (items : List JsValue)
  | record (properties : List (String × JsValue))
  deriving DecidableEq, Repr

/-- The members of an object as `SerializeJSONArray` and `SerializeJSONObject`
visit them: an array's elements keyed by their index, an object's properties. -/
def JsObject.members : JsObject → List (String × JsValue)
  | .array items => items.enum.map fun (index, item) => (toString index, item)
  | .record properties => properties

/-- Whether a value refers only to objects among the first `size` ones. -/
def JsValue.within (size : Nat) : JsValue → Bool
  | .object ref => ref < size
  | _ => true

/-- A heap whose objects refer only to objects of the heap. -/
structure Heap where
  objects : List JsObject
  closed : ∀ o ∈ objects, ∀ member ∈ o.members, member.2.within objects.length = true

/-- The object at `ref`; the default is never read for a value of the heap. -/
def Heap.get (heap : Heap) (ref : Nat) : JsObject := heap.objects.getD ref (.record [])

/-! ## `JSON.stringify` -/

/-- The escape `QuoteJSONString` writes for one code point. -/
def escapeChar (c : Char) : String :=
  match c.toNat with
  | 8 => "\\b"
  | 9 => "\\t"
  | 10 => "\\n"
  | 12 => "\\f"
  | 13 => "\\r"
  | 34 => "\\\""
  | 92 => "\\\\"
  | n => if n < 0x20 then "\\u00" ++ ⟨[Nat.digitChar (n / 16), Nat.digitChar (n % 16)]⟩ else c.toString

/-- `QuoteJSONString`. -/
def quote (s : String) : String := "\"" ++ String.join (s.data.map escapeChar) ++ "\""

/-- The `space` argument of `JSON.stringify`. -/
inductive Space where
  | none
  | number (n : Int)
  | string (s : String)

/-- The `gap` `JSON.stringify` derives from `space`: up to ten blanks for a
number, the first ten characters of a string, and nothing otherwise. -/
def Space.gap : Space → String
  | .none => ""
  | .number n => ⟨List.replicate (min 10 n).toNat ' '⟩
  | .string s => ⟨s.data.take 10⟩

/-- Why printing stops short of a text: an object met again on the path being
printed (`JSON.stringify` throws a `TypeError`), or the fuel ran out. -/
inductive Stop where
  | cyclic
  | outOfFuel
  deriving DecidableEq, Repr

/-- The call `replacer(key, value)` of `SerializeJSONProperty`; the replacer
may carry state from call to call. -/
def callReplacer {σ : Type} (replacer : Option (σ → String → JsValue → σ × JsValue)) (state : σ)
    (key : String) (value : JsValue) : σ × JsValue :=
  match replacer with
  | some replacer => replacer state key value
  | none => (state, value)

/-- `SerializeJSONProperty` on a value that is not an object: its text, or
`undefined` (`none`). -/
def printPrimitive : JsValue → Option String
  | .null => some "null"
  | .bool b => some (if b then "true" else "false")
  | .number n => some (numberToString n)
  | .string s => some (quote s)
  | .undefined | .function | .object _ => none

/-- The loop of `SerializeJSONObject` and `SerializeJSONArray` over the
members: each value printed in turn, the replacer's state threaded through. -/
def serializeMembers {σ : Type} (serialize : σ → String → JsValue → Except Stop (σ × Option String)) :
    σ → List (String × JsValue) → Except Stop (σ × List (String × Option String))
  | state, [] => .ok (state, [])
  | state, (key, value) :: rest =>
    match serialize state key value with
    | .error stop => .error stop
    | .ok (state, text) =>
      match serializeMembers serialize state rest with
      | .error stop => .error stop
      | .ok (state, texts) => .ok (state, (key, text) :: texts)

/-- The text of an array or an object from the texts of its members: `[]` or
`{}` when there is none, the members joined by `,` when `gap` is empty, and
otherwise one member a line, indented by `indent`. -/
def wrapParts (opening closing gap indent stepback : String) (parts : List String) : String :=
  if parts = [] then opening ++ closing
  else if gap = "" then opening ++ ",".intercalate parts ++ closing
  else opening ++ "\n" ++ indent ++ (",\n" ++ indent).intercalate parts ++ "\n" ++ stepback ++ closing

/-- The members of an object that print, as `"key":value`. -/
def objectParts (gap : String) (texts : List (String × Option String)) : List String :=
  texts.filterMap fun (key, text) =>
    text.map fun text => quote key ++ ":" ++ (if gap = "" then "" else " ") ++ text

/-- The elements of an array; one that does not print is `null`. -/
def arrayParts (texts : List (String × Option String)) : List String :=
  texts.map fun (_, text) => text.getD "null"

/-- The text of an object from the texts of its members. -/
def JsObject.wrap (o : JsObject) (gap indent : String) (texts : List (String × Option String)) : String :=
  match o with
  | .array _ => wrapParts "[" "]" gap (indent ++ gap) indent (arrayParts texts)
  | .record _ => wrapParts "\x7b" "\x7d" gap (indent ++ gap) indent (objectParts gap texts)

/-- `SerializeJSONObject` and `SerializeJSONArray` on the object `ref`, with
`serialize` printing the members one level further in. -/
def serializeObject {σ : Type} (heap : Heap) (gap indent : String)
    (serialize : σ → String → JsValue → Except Stop (σ × Option String)) (state : σ) (ref : Nat) :
    Except Stop (σ × Option String) :=
  (serializeMembers serialize state (heap.get ref).members).map fun (state, texts) =>
    (state, some ((heap.get ref).wrap gap indent texts))

/-- The object a value is, if it is one. -/
def JsValue.asObject : JsValue → Option Nat
  | .object ref => some ref
  | _ => none

/-- `SerializeJSONProperty(state, key, holder)` for the value `holder[key]`:
the replacer is called, then the value printed. `stack` holds the objects on
the path being printed. At most `fuel` nested calls. -/
def serializeValue {σ : Type} (heap : Heap) (gap : String)
    (replacer : Option (σ → String → JsValue → σ × JsValue)) :
    Nat → List Nat → String → σ → String → JsValue → Except Stop (σ × Option String)
  | 0, _, _, _, _, _ => .error .outOfFuel
  | fuel + 1, stack, indent, state, key, value =>
    let (state, value) := callReplacer replacer state key value
    match value.asObject with
    | some ref =>
      if ref ∈ stack then .error .cyclic
      else
        serializeObject heap gap indent
          (serializeValue heap gap replacer fuel (ref :: stack) (indent ++ gap)) state ref
    | none => .ok (state, printPrimitive value)

/-- `JSON.stringify(value, replacer, space)`: the value is the property `""`
of a fresh wrapper object. -/
def stringifyWith {σ : Type} (heap : Heap) (replacer : Option (σ → String → JsValue → σ × JsValue))
    (state : σ) (space : Space) (fuel : Nat) (value : JsValue) : Except Stop (σ × Option String) :=
  serializeValue heap space.gap replacer fuel [] "" state "" value

/-- `JSON.stringify(value, undefined, space)`. -/
def stringify (heap : Heap) (space : Space) (fuel : Nat) (value : JsValue) :
    Except Stop (Option String) :=
  (stringifyWith heap (none : Option (Unit → String → JsValue → Unit × JsValue)) () space fuel
    value).map Prod.snd

/-! ## `JSON.stringifyOnce` -/

/-- The replacer `stringifyOnce` hands to `JSON.stringify`: an object already
in `cache` becomes `undefined`, any other is pushed onto `cache`. -/
def onceReplacer (cache : List Nat) (_key : String) (value : JsValue) : List Nat × JsValue :=
  match value with
  | .object ref => if ref ∈ cache then (cache, .undefined) else (cache ++ [ref], value)
  | value => (cache, value)

/-- `JSON.stringifyOnce(obj, undefined, space)`. -/
def stringifyOnce (heap : Heap) (space : Space) (fuel : Nat) (value : JsValue) :
    Except Stop (Option String) :=
  (stringifyWith heap (some onceReplacer) [] space fuel value).map Prod.snd

/-- Not from the source: a replacer that changes nothing and records every
object it is called on, so that its state is the list of the objects
`JSON.stringify` meets, in order, once per meeting. -/
def recordObject (met : List Nat) (_key : String) (value : JsValue) : List Nat × JsValue :=
  match value with
  | .object ref => (met ++ [ref], value)
  | value => (met, value)

/-- The objects `JSON.stringify(value)` meets, in order, once per meeting. -/
def metObjects (heap : Heap) (space : Space) (fuel : Nat) (value : JsValue) : Except Stop (List Nat) :=
  (stringifyWith heap (some recordObject) [] space fuel value).map Prod.fst

/-! ## The members loop -/

private theorem map_eq_ok {α β ε : Type} {f : α → β} {x : Except ε α} {b : β}
    (mapped : x.map f = .ok b) : ∃ a, x = .ok a ∧ f a = b := by
  cases x with
  | error e => cases mapped
  | ok a => exact ⟨a, rfl, Except.ok.inj mapped⟩

section Members

variable {σ τ : Type}

theorem serializeMembers_ok_cons {serialize : σ → String → JsValue → Except Stop (σ × Option String)}
    {state : σ} {key : String} {value : JsValue} {rest : List (String × JsValue)}
    {result : σ × List (String × Option String)}
    (ok : serializeMembers serialize state ((key, value) :: rest) = .ok result) :
    ∃ state₁ text texts, serialize state key value = .ok (state₁, text) ∧
      serializeMembers serialize state₁ rest = .ok (result.1, texts) ∧
      result.2 = (key, text) :: texts := by
  unfold serializeMembers at ok
  split at ok
  · cases ok
  · rename_i state₁ text first
    split at ok
    · cases ok
    · rename_i state₂ texts later
      cases ok
      exact ⟨state₁, text, texts, first, later, rfl⟩

theorem serializeMembers_cons_of_ok {serialize : σ → String → JsValue → Except Stop (σ × Option String)}
    {state state₁ state₂ : σ} {key : String} {value : JsValue} {rest : List (String × JsValue)}
    {text : Option String} {texts : List (String × Option String)}
    (first : serialize state key value = .ok (state₁, text))
    (later : serializeMembers serialize state₁ rest = .ok (state₂, texts)) :
    serializeMembers serialize state ((key, value) :: rest) = .ok (state₂, (key, text) :: texts) := by
  rw [serializeMembers, first]
  dsimp only
  rw [later]

/-- What each member's call keeps from its start state to its end state, the
whole loop keeps. -/
theorem serializeMembers_forward {serialize : σ → String → JsValue → Except Stop (σ × Option String)}
    (R : σ → σ → Prop) (refl : ∀ s, R s s) (trans : ∀ {a b c}, R a b → R b c → R a c)
    (step : ∀ {s k v r}, serialize s k v = .ok r → R s r.1) :
    ∀ {state members result}, serializeMembers serialize state members = .ok result → R state result.1
  | state, [], _, ok => by
    cases Except.ok.inj ok
    exact refl state
  | _, (_, _) :: _, _, ok => by
    obtain ⟨_, _, _, first, later, -⟩ := serializeMembers_ok_cons ok
    have rest := serializeMembers_forward R refl trans step later
    exact trans (step first) rest

/-- A run of the loop with `serialize₂` that ends in a good state is one with
`serialize₁`, when that holds of every call and a good end state comes only
after good states. -/
theorem serializeMembers_transfer
    {serialize₁ serialize₂ : σ → String → JsValue → Except Stop (σ × Option String)}
    (good : σ → Prop) (back : ∀ {s k v r}, serialize₂ s k v = .ok r → good r.1 → good s)
    (agree : ∀ {s k v r}, serialize₂ s k v = .ok r → good r.1 → serialize₁ s k v = .ok r) :
    ∀ {state members result}, serializeMembers serialize₂ state members = .ok result →
      good result.1 → serializeMembers serialize₁ state members = .ok result
  | state, [], _, ok, _ => by
    cases Except.ok.inj ok
    rfl
  | _, (_, _) :: _, (_, _), ok, ends => by
    obtain ⟨state₁, text, texts, first, later, rfl⟩ := serializeMembers_ok_cons ok
    have middle : good state₁ := serializeMembers_forward (fun s r => good r → good s)
      (fun _ kept => kept) (fun ab bc kept => ab (bc kept)) (fun called => back called) later ends
    exact serializeMembers_cons_of_ok (agree first middle)
      (serializeMembers_transfer good back agree later ends)

/-- When every call from a good state on a fitting value ends in a good state,
so does the loop over fitting members. -/
theorem serializeMembers_total {serialize : σ → String → JsValue → Except Stop (σ × Option String)}
    (good : σ → Prop) (fits : JsValue → Prop)
    (step : ∀ {s k v}, good s → fits v → ∃ r, serialize s k v = .ok r ∧ good r.1) :
    ∀ {state members}, good state → (∀ m ∈ members, fits m.2) →
      ∃ r, serializeMembers serialize state members = .ok r ∧ good r.1
  | state, [], starts, _ => ⟨(state, []), rfl, starts⟩
  | _, (_, _) :: _, starts, fitting => by
    obtain ⟨⟨_, _⟩, first, middle⟩ := step starts (fitting _ (List.mem_cons_self _ _))
    obtain ⟨⟨_, _⟩, later, ends⟩ :=
      serializeMembers_total good fits step middle fun m mem => fitting m (List.mem_cons_of_mem _ mem)
    exact ⟨_, serializeMembers_cons_of_ok first later, ends⟩

/-- Two loops whose calls print the same texts print the same texts. -/
theorem serializeMembers_map_snd {serialize₁ : σ → String → JsValue → Except Stop (σ × Option String)}
    {serialize₂ : τ → String → JsValue → Except Stop (τ × Option String)}
    (same : ∀ s₁ s₂ k v, (serialize₁ s₁ k v).map Prod.snd = (serialize₂ s₂ k v).map Prod.snd) :
    ∀ state₁ state₂ members, (serializeMembers serialize₁ state₁ members).map Prod.snd =
      (serializeMembers serialize₂ state₂ members).map Prod.snd
  | _, _, [] => rfl
  | state₁, state₂, (key, value) :: rest => by
    have first := same state₁ state₂ key value
    have later := fun a₁ a₂ => serializeMembers_map_snd same a₁ a₂ rest
    revert first
    unfold serializeMembers
    rcases serialize₁ state₁ key value with _ | ⟨a₁, t₁⟩ <;>
      rcases serialize₂ state₂ key value with _ | ⟨a₂, t₂⟩ <;> intro first <;> cases first
    · rfl
    · have tails := later a₁ a₂
      dsimp only
      revert tails
      rcases serializeMembers serialize₁ a₁ rest with _ | ⟨_, _⟩ <;>
        rcases serializeMembers serialize₂ a₂ rest with _ | ⟨_, _⟩ <;> intro tails <;> cases tails <;> rfl

end Members

/-! ## Runs of `SerializeJSONProperty` -/

section Serialize

variable {σ : Type} (heap : Heap) (gap : String)

theorem serializeValue_succ (replacer : Option (σ → String → JsValue → σ × JsValue)) (fuel : Nat)
    (stack : List Nat) (indent : String) (state : σ) (key : String) (value : JsValue) :
    serializeValue heap gap replacer (fuel + 1) stack indent state key value =
      match (callReplacer replacer state key value).2.asObject with
      | some ref =>
        if ref ∈ stack then .error .cyclic
        else
          serializeObject heap gap indent
            (serializeValue heap gap replacer fuel (ref :: stack) (indent ++ gap))
            (callReplacer replacer state key value).1 ref
      | none => .ok ((callReplacer replacer state key value).1,
          printPrimitive (callReplacer replacer state key value).2) :=
  rfl

theorem serializeObject_ok {serialize : σ → String → JsValue → Except Stop (σ × Option String)}
    {indent : String} {state : σ} {ref : Nat} {result : σ × Option String}
    (ok : serializeObject heap gap indent serialize state ref = .ok result) :
    ∃ texts, serializeMembers serialize state (heap.get ref).members = .ok (result.1, texts) ∧
      result.2 = some ((heap.get ref).wrap gap indent texts) := by
  obtain ⟨⟨_, texts⟩, members, rfl⟩ := map_eq_ok ok
  exact ⟨texts, members, rfl⟩

/-- What every call of the replacer keeps from the state it is given to the
state it returns, a whole run keeps. -/
theorem serializeValue_forward {replacer : Option (σ → String → JsValue → σ × JsValue)}
    (R : σ → σ → Prop) (refl : ∀ s, R s s) (trans : ∀ {a b c}, R a b → R b c → R a c)
    (replaced : ∀ s k v, R s (callReplacer replacer s k v).1) :
    ∀ {fuel stack indent state key value result},
      serializeValue heap gap replacer fuel stack indent state key value = .ok result → R state result.1
  | 0, _, _, _, _, _, _, ok => by cases ok
  | fuel + 1, stack, indent, state, key, value, result, ok => by
    rw [serializeValue_succ] at ok
    split at ok
    · rename_i ref _
      split_ifs at ok
      obtain ⟨texts, members, -⟩ := serializeObject_ok heap gap ok
      exact trans (replaced state key value) (serializeMembers_forward R refl trans
        (fun called => serializeValue_forward R refl trans replaced called) members)
    · cases ok
      exact replaced state key value

/-- The same, from the state the replacer returns. -/
theorem serializeValue_after {replacer : Option (σ → String → JsValue → σ × JsValue)}
    (R : σ → σ → Prop) (refl : ∀ s, R s s) (trans : ∀ {a b c}, R a b → R b c → R a c)
    (replaced : ∀ s k v, R s (callReplacer replacer s k v).1)
    {fuel : Nat} {stack : List Nat} {indent : String} {state : σ} {key : String} {value : JsValue}
    {result : σ × Option String}
    (ok : serializeValue heap gap replacer (fuel + 1) stack indent state key value = .ok result) :
    R (callReplacer replacer state key value).1 result.1 := by
  rw [serializeValue_succ] at ok
  split at ok
  · split_ifs at ok
    obtain ⟨texts, members, -⟩ := serializeObject_ok heap gap ok
    exact serializeMembers_forward R refl trans
      (fun called => serializeValue_forward heap gap R refl trans replaced called) members
  · cases ok
    exact refl _

/-- A run with `replacer₂` that ends in a good state is a run with
`replacer₁` at any larger fuel, when the two replacers agree on every call
after which the state is still good, and a good state comes only after good
ones. -/
theorem serializeValue_transfer {replacer₁ replacer₂ : Option (σ → String → JsValue → σ × JsValue)}
    (R : σ → σ → Prop) (refl : ∀ s, R s s) (trans : ∀ {a b c}, R a b → R b c → R a c)
    (replaced : ∀ s k v, R s (callReplacer replacer₂ s k v).1)
    (good : σ → Prop) (down : ∀ {a b}, R a b → good b → good a)
    (agree : ∀ {s k v}, good (callReplacer replacer₂ s k v).1 →
      callReplacer replacer₁ s k v = callReplacer replacer₂ s k v) :
    ∀ {fuel fuel' stack indent state key value result}, fuel ≤ fuel' →
      serializeValue heap gap replacer₂ fuel stack indent state key value = .ok result →
      good result.1 → serializeValue heap gap replacer₁ fuel' stack indent state key value = .ok result
  | 0, _, _, _, _, _, _, _, _, ok, _ => by cases ok
  | _ + 1, 0, _, _, _, _, _, _, more, _, _ => absurd more (by omega)
  | fuel + 1, fuel' + 1, stack, indent, state, key, value, result, more, ok, ends => by
    have afterGood := down (serializeValue_after heap gap R refl trans replaced ok) ends
    rw [serializeValue_succ] at ok ⊢
    rw [agree afterGood]
    generalize callReplacer replacer₂ state key value = after at ok ⊢
    obtain ⟨state', value'⟩ := after
    dsimp only at ok ⊢
    cases object : value'.asObject with
    | none =>
      rw [object] at ok
      exact ok
    | some ref =>
      rw [object] at ok
      dsimp only at ok ⊢
      split_ifs at ok ⊢
      obtain ⟨texts, members, shape⟩ := serializeObject_ok heap gap ok
      unfold serializeObject
      rw [serializeMembers_transfer good
        (fun called ends => down (serializeValue_forward heap gap R refl trans replaced called) ends)
        (fun called ends => serializeValue_transfer R refl trans replaced good down agree
          (by omega) called ends) members ends]
      obtain ⟨_, _⟩ := result
      cases shape
      rfl

theorem serializeObject_map_snd {serialize : σ → String → JsValue → Except Stop (σ × Option String)}
    (indent : String) (state : σ) (ref : Nat) :
    (serializeObject heap gap indent serialize state ref).map Prod.snd =
      ((serializeMembers serialize state (heap.get ref).members).map Prod.snd).map
        fun texts => some ((heap.get ref).wrap gap indent texts) := by
  unfold serializeObject
  cases serializeMembers serialize state (heap.get ref).members <;> rfl

/-- A replacer that returns every value unchanged prints what `JSON.stringify`
prints without one, whatever its state. -/
theorem serializeValue_unchanged {replacer : Option (σ → String → JsValue → σ × JsValue)}
    (unchanged : ∀ s k v, (callReplacer replacer s k v).2 = v) :
    ∀ fuel stack indent state key value,
      (serializeValue heap gap replacer fuel stack indent state key value).map Prod.snd =
        (serializeValue heap gap (none : Option (Unit → String → JsValue → Unit × JsValue)) fuel stack
          indent () key value).map Prod.snd
  | 0, _, _, _, _, _ => rfl
  | fuel + 1, stack, indent, state, key, value => by
    rw [serializeValue_succ, serializeValue_succ, unchanged]
    show _ = Except.map Prod.snd (match value.asObject with
      | some ref => if ref ∈ stack then .error .cyclic else
          serializeObject heap gap indent (serializeValue heap gap none fuel (ref :: stack) (indent ++ gap)) () ref
      | none => .ok ((), printPrimitive value))
    cases value.asObject with
    | none => rfl
    | some ref =>
      dsimp only
      split_ifs
      · rfl
      · rw [serializeObject_map_snd, serializeObject_map_snd, serializeMembers_map_snd
          (fun s₁ (_ : Unit) k v => serializeValue_unchanged unchanged fuel _ _ s₁ k v)]

end Serialize

/-! ## The cache of `stringifyOnce` -/

/-- A cache of distinct objects of the heap. -/
def Heap.Cache (heap : Heap) (cache : List Nat) : Prop :=
  cache.Nodup ∧ ∀ ref ∈ cache, ref < heap.objects.length

theorem Heap.Cache.length_le {heap : Heap} {cache : List Nat} (valid : heap.Cache cache) :
    cache.length ≤ heap.objects.length := by
  have := (List.subperm_of_subset valid.1 fun ref mem => List.mem_range.mpr (valid.2 ref mem)).length_le
  rwa [List.length_range] at this

theorem Heap.Cache.push {heap : Heap} {cache : List Nat} {ref : Nat} (valid : heap.Cache cache)
    (fresh : ref ∉ cache) (inHeap : ref < heap.objects.length) : heap.Cache (cache ++ [ref]) :=
  ⟨valid.1.append (List.nodup_singleton ref) (by simpa using fresh), by
    simpa [or_imp, forall_and] using ⟨valid.2, inHeap⟩⟩

theorem Heap.members_within (heap : Heap) {ref : Nat} (inHeap : ref < heap.objects.length) :
    ∀ member ∈ (heap.get ref).members, member.2.within heap.objects.length = true := by
  have stored : heap.get ref ∈ heap.objects := by
    rw [Heap.get, List.getD_eq_getElem _ _ inHeap]
    exact List.getElem_mem inHeap
  exact heap.closed _ stored

theorem onceReplacer_primitive {cache : List Nat} {key : String} {value : JsValue}
    (primitive : value.asObject = none) : onceReplacer cache key value = (cache, value) := by
  cases value <;> first | rfl | cases primitive

/-- From a cache of distinct objects of the heap that holds the path being
printed, `stringifyOnce`'s traversal ends with a text, as long as the fuel
covers the objects not yet in the cache; the cache only grows, and stays one
of distinct objects of the heap. -/
theorem serializeValue_once_total (heap : Heap) (gap : String) :
    ∀ {fuel stack indent cache key value}, heap.Cache cache → stack ⊆ cache →
      value.within heap.objects.length = true → heap.objects.length + 1 ≤ fuel + cache.length →
      ∃ result, serializeValue heap gap (some onceReplacer) fuel stack indent cache key value =
        .ok result ∧ heap.Cache result.1 ∧ cache <+: result.1
  | 0, _, _, cache, _, _, valid, _, _, enough => by
    have := valid.length_le
    omega
  | fuel + 1, stack, indent, cache, key, value, valid, onPath, fits, enough => by
    rw [serializeValue_succ]
    simp only [callReplacer]
    cases object : value.asObject with
    | none =>
      rw [onceReplacer_primitive object, object]
      exact ⟨_, rfl, valid, List.prefix_refl _⟩
    | some ref =>
      obtain rfl : value = .object ref := by
        cases value <;> cases object
        rfl
      have inHeap : ref < heap.objects.length := by simpa [JsValue.within] using fits
      by_cases seen : ref ∈ cache
      · simp only [onceReplacer, if_pos seen]
        exact ⟨_, rfl, valid, List.prefix_refl _⟩
      · simp only [onceReplacer, if_neg seen, JsValue.asObject, if_neg (fun mem => seen (onPath mem))]
        have pushed := valid.push seen inHeap
        obtain ⟨⟨final, texts⟩, members, finalValid, grown⟩ :=
          serializeMembers_total (fun s => heap.Cache s ∧ cache ++ [ref] <+: s)
            (fun v => v.within heap.objects.length = true)
            (fun {s k v} ⟨sValid, sGrown⟩ fitting => by
              have longer := sGrown.length_le
              simp only [List.length_append, List.length_singleton] at longer
              obtain ⟨r, ok, rValid, rGrown⟩ := @serializeValue_once_total heap gap fuel (ref :: stack)
                (indent ++ gap) s k v sValid
                (List.cons_subset.mpr ⟨sGrown.subset (List.mem_append_right _ (List.mem_singleton_self ref)),
                  fun x mem => sGrown.subset (List.mem_append_left _ (onPath mem))⟩) fitting (by omega)
              exact ⟨r, ok, rValid, sGrown.trans rGrown⟩)
            ⟨pushed, List.prefix_refl _⟩ (heap.members_within inHeap)
        refine ⟨(final, some ((heap.get ref).wrap gap indent texts)), ?_, finalValid,
          (List.prefix_append _ _).trans grown⟩
        unfold serializeObject
        rw [members]
        rfl

/-! ## `stringifyOnce` against `JSON.stringify` -/

/-- `stringifyOnce` ends with a text on every heap, cyclic or not: it never
throws, and as many nested calls as the heap has objects, plus one for the
values inside the innermost, are enough; more change nothing. -/
theorem stringifyOnce_total (heap : Heap) (space : Space) (value : JsValue)
    (inHeap : value.within heap.objects.length = true) :
    ∃ text, ∀ fuel, heap.objects.length < fuel → stringifyOnce heap space fuel value = .ok text := by
  obtain ⟨result, ok, -, -⟩ := @serializeValue_once_total heap space.gap (heap.objects.length + 1) [] ""
    [] "" value ⟨List.nodup_nil, fun _ => nofun⟩ (List.nil_subset _) inHeap (by simp)
  refine ⟨result.2, fun fuel enough => ?_⟩
  have more := serializeValue_transfer heap space.gap (fun _ _ => True) (fun _ => trivial)
    (fun _ _ => trivial) (fun _ _ _ => trivial) (fun _ => True) (fun _ _ => trivial)
    (fun _ => rfl) enough ok trivial
  simp only [stringifyOnce, stringifyWith, more]
  rfl

theorem stringifyOnce_total_on_cycle :
    (JsValue.object 0).within 1 = true ∧
      ∃ text, ∀ fuel, 1 < fuel →
        stringifyOnce ⟨[.record [("self", .object 0), ("n", .null)]], by decide⟩ .none fuel (.object 0) =
          .ok text :=
  ⟨by decide, stringifyOnce_total ⟨[.record [("self", .object 0), ("n", .null)]], by decide⟩ .none
    (.object 0) (by decide)⟩

private theorem onceReplacer_eq_recordObject {cache : List Nat} {key : String} {value : JsValue}
    (fresh : (recordObject cache key value).1.Nodup) :
    onceReplacer cache key value = recordObject cache key value := by
  cases value with
  | object ref =>
    have : ref ∉ cache := by
      simp only [recordObject] at fresh
      exact fun mem => (List.nodup_append.mp fresh).2.2 mem (List.mem_singleton_self ref)
    simp only [onceReplacer, recordObject, if_neg this]
  | _ => rfl

/-- While `JSON.stringify` meets no object twice, `stringifyOnce` prints what
`JSON.stringify` prints. -/
theorem stringifyOnce_eq_stringify (heap : Heap) (space : Space) (fuel : Nat) (value : JsValue)
    {met : List Nat} (meets : metObjects heap space fuel value = .ok met) (once : met.Nodup) :
    stringifyOnce heap space fuel value = stringify heap space fuel value := by
  obtain ⟨result, recorded, rfl⟩ := map_eq_ok meets
  have grows : ∀ s k v, s <+: (callReplacer (some recordObject) s k v).1 := fun s k v => by
    cases v <;> first | exact List.prefix_refl s | exact List.prefix_append s _
  have same : serializeValue heap space.gap (some onceReplacer) fuel [] "" [] "" value = .ok result :=
    @serializeValue_transfer _ heap space.gap (some onceReplacer) (some recordObject) List.IsPrefix
      List.prefix_refl (fun ab bc => ab.trans bc) grows List.Nodup
      (fun ab nodup => nodup.sublist ab.sublist) (fun {s k v} fresh => @onceReplacer_eq_recordObject s k v fresh)
      fuel fuel [] "" [] "" value result le_rfl recorded once
  have text := serializeValue_unchanged heap space.gap
    (fun s k v => by cases v <;> rfl : ∀ s k v, (callReplacer (some recordObject) s k v).2 = v)
    fuel [] "" [] "" value
  simp only [stringifyOnce, stringify, stringifyWith, same]
  rw [← text]
  exact congrArg (Except.map Prod.snd) recorded.symm

theorem stringifyOnce_eq_stringify_on_tree :
    metObjects ⟨[.record [("a", .object 1), ("b", .object 2)], .array [.string "x"], .array [.number 1]],
        by decide⟩ .none 4 (.object 0) = .ok [0, 1, 2] ∧ ([0, 1, 2] : List Nat).Nodup ∧
      stringifyOnce ⟨[.record [("a", .object 1), ("b", .object 2)], .array [.string "x"],
          .array [.number 1]], by decide⟩ .none 4 (.object 0) =
        stringify ⟨[.record [("a", .object 1), ("b", .object 2)], .array [.string "x"],
          .array [.number 1]], by decide⟩ .none 4 (.object 0) :=
  ⟨rfl, by decide, stringifyOnce_eq_stringify _ _ _ _ rfl (by decide)⟩

end OvsFrontend.Json
