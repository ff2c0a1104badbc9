import LiveMarkup.Engine.World

/-!
# Writes

A write through a handle changes the state in a store and calls the listeners of the store, one
after the other, before it ends (`Run.notify`). A write that changes nothing calls none. The
listeners are those at the time of the change; what they subscribe or unsubscribe has no effect on
the round that goes on.

* `Run.set`, `Run.setIndex` and `Run.remove` write one value.
* `Run.merge` writes all entries of a state, one at a time. Through the root, the middleware of the
  store changes the merged state first.

All of them are given what it means to `call` something.
-/

namespace LiveMarkup

variable {σ : Type}

namespace Store

/-- The store with one listener more, the last one. -/
def enlist (s : Store σ) (callback : Callback σ) : Store σ :=
  { s with listeners := s.listeners ++ [⟨s.nextId, callback⟩], nextId := s.nextId + 1 }

/-- The store without the listener of a subscription. -/
def dismiss (s : Store σ) (id : SubscriptionId) : Store σ :=
  { s with listeners := s.listeners.filter fun l => l.id != id }

/-- Whether there is a listener of a subscription. -/
def hasListener (s : Store σ) (id : SubscriptionId) : Bool := s.listeners.any fun l => l.id == id

end Store

namespace Run

variable (call : Callback σ → Run σ Unit)

/-! ## What belongs to a store -/

/-- Has a callback called on every change of a store. -/
def subscribe (store : StoreId) (callback : Callback σ) : Run σ SubscriptionId := do
  let w ← get
  match w.stores[store]? with
  | none => pure 0
  | some st => do
    set ((w.modifyStore store fun s => s.enlist callback).record (.subscribed store st.nextId))
    pure st.nextId

/-- Ends a subscription; whether there was one. -/
def unsubscribe (store : StoreId) (id : SubscriptionId) : Run σ Bool := do
  let w ← get
  if (w.stores[store]?).any fun s => s.hasListener id then
    set ((w.modifyStore store fun s => s.dismiss id).record (.unsubscribed store id))
    pure true
  else pure false

/-- Has merges through the root of a store go through a further middleware. -/
def addMiddleware (store : StoreId) (layer : Middleware σ) : Run σ Unit :=
  modify fun w => w.modifyStore store fun s => { s with middleware := s.middleware ++ [layer] }

/-- Has failures of the middleware of a store go to a sink. -/
def reportTo (store : StoreId) (sink : Diagnostic → σ → σ) : Run σ Unit :=
  modify fun w => w.modifyStore store fun s => { s with sink := sink }

/-- Calls listeners of a store in order, in a round. -/
def callAll (store : StoreId) (round : Nat) : List (Listener σ) → Run σ Unit
  | [] => pure ()
  | l :: rest => do
    modify fun w => w.record (.called store l.id round)
    call l.callback
    callAll store round rest

/-- Calls the listeners that a store has now, in the round of the change that was just recorded. -/
def notify (store : StoreId) : Run σ Unit := do
  let w ← get
  callAll call store w.history.length ((w.stores[store]?.map Store.listeners).getD [])
  modify fun w => w.record (.told store)

/-! ## Single values -/

/-- Changes the state in a store as `change` says; whether it says anything. -/
def write (store : StoreId) (change : OrderedValue → Option OrderedValue) : Run σ Bool := do
  let w ← get
  match (w.state? store).bind change with
  | none => pure false
  | some v => do
    set ((w.modifyStore store fun s => { s with value := v }).record (.changed store v))
    notify call store
    pure true

/-- Writes a value under a key; whether anything changed. -/
def set (h : Handle) (key : String) (v : OrderedValue) : Run σ Bool :=
  write call h.store fun root => root.put? h.path key v

/-- Writes a value at an index; whether anything changed. -/
def setIndex (h : Handle) (index : Nat) (v : OrderedValue) : Run σ Bool :=
  write call h.store fun root => root.putAt? h.path index v

/-- Removes a key; the value that was there. -/
def remove (h : Handle) (key : String) : Run σ (Option Value) := do
  let w ← get
  match (w.state? h.store).bind fun root => root.take? h.path key with
  | none => pure none
  | some (old, _) => do
    let _ ← write call h.store fun root => (root.take? h.path key).map Prod.snd
    pure (some old)

/-! ## Many values -/

/-- Writes entries one after the other; how many changed anything. -/
def setAll (h : Handle) : List (String × OrderedValue) → Run σ Nat
  | [] => pure 0
  | (key, v) :: rest => do
    let changed ← set call h key v
    let more ← setAll h rest
    pure (if changed then more + 1 else more)

/-- Removes keys one after the other; how many were there. -/
def removeAll (h : Handle) : List String → Run σ Nat
  | [] => pure 0
  | key :: rest => do
    let removed ← remove call h key
    let more ← removeAll h rest
    pure (if removed.isSome then more + 1 else more)

/-- What middleware makes of a state, put in order. One that fails is reported with its position and
leaves the state as it was. -/
def applyMiddleware (store : StoreId) (old : State) :
    Nat → List (Middleware σ) → State → Run σ State
  | _, [], next => pure next
  | position, layer :: rest, next => do
    call (.script (layer.script next.1 old.1))
    match layer.apply next.1 old.1 with
    | .ok made => applyMiddleware store old (position + 1) rest (.ofFields made)
    | .error message => do
      modify fun w =>
        match w.stores[store]? with
        | some s => w.report s.sink (.middlewareFailed position message)
        | none => w
      applyMiddleware store old (position + 1) rest next

/-- The middleware that a merge through a handle goes through. -/
def middlewareOf (w : World σ) (h : Handle) : List (Middleware σ) :=
  if h.path.isEmpty then (w.stores[h.store]?.map Store.middleware).getD [] else []

/-- Writes all entries of a state; how many changed anything. Behind middleware, the whole state
that it made is written, and keys that it dropped are removed. -/
def mergeThrough (h : Handle) (old entries : State) : List (Middleware σ) → Run σ Nat
  | [] => setAll call h entries.entries
  | layer :: layers => do
    let next ← applyMiddleware call h.store old 0 (layer :: layers) (old.merge entries)
    let removed ← removeAll call h (old.1.keys.filter fun key => !next.1.contains key)
    let written ← setAll call h next.entries
    pure (removed + written)

/-- Writes all entries of a state, through the middleware that there is; how many changed
anything. -/
def merge (h : Handle) (entries : State) : Run σ Nat := do
  let w ← get
  let changed ← mergeThrough call h (w.stateAt h) entries (middlewareOf w h)
  modify fun w' => w'.record (.merged h (w.stateAt h) entries w.history.length)
  pure changed

end Run

end LiveMarkup
