import LiveMarkup.Dom.Display
import LiveMarkup.Engine.Program
import LiveMarkup.State.Ordered
import LiveMarkup.Storage
import LiveMarkup.Template.Cache
import LiveMarkup.Template.Compiler
import LiveMarkup.Template.Source

/-!
# The world of an engine

Everything that the operations of an engine read and change: the states with their listeners, the
sessions, the nodes they show, the files, and the state `σ` of the caller. A `Run` is a computation
that changes the world; it has no result if calls are nested too deep.

The history of a world says what happened in it. No operation reads it.
-/

namespace LiveMarkup

/-- What is called when a state changes. -/
structure Listener (σ : Type) where
  id : SubscriptionId
  callback : Callback σ

/-- A state that is listened to. -/
structure Store (σ : Type) where
  /-- The state, an object. -/
  value : OrderedValue
  /-- The listeners in the order in which they subscribed. -/
  listeners : List (Listener σ) := []
  nextId : SubscriptionId := 0
  middleware : List (Middleware σ) := []
  /-- Where failures of middleware go. -/
  sink : Diagnostic → σ → σ

/-- A template that is shown in a state, and shown again when the state changes. -/
structure Session where
  store : StoreId
  template : String
  /-- The root of what is shown. -/
  shown : Option NodeId := none
  isRefreshing : Bool := false
  subscription : SubscriptionId := 0
  deriving DecidableEq, Repr

/-- Where an engine fetches templates from. -/
inductive TemplateSource (σ : Type)
  | files (source : FileSource)
  | custom (fetch : String → σ → Except FetchError String × σ)

/-- Where an engine keeps states. -/
inductive StateStorage (σ : Type)
  | builtin (storage : Storage)
  | custom (load : String → σ → Except StorageError (Option Fields) × σ)
      (save : String → Fields → σ → Except StorageError Unit × σ)

/-- What sessions share. -/
structure Engine (σ : Type) where
  config : Config := {}
  /-- Where diagnostics go. -/
  sink : Diagnostic → σ → σ
  directives : OrderedMap String (ActiveDirective σ) := []
  handlers : OrderedMap String (EventHandler σ) := []
  cache : TemplateCache
  source : Option (TemplateSource σ) := none
  storage : Option (StateStorage σ) := none
  onDestroy : σ → σ := id
  dom : Dom := .empty
  /-- Whether somebody else holds the nodes, so that nothing can be shown. -/
  isLocked : Bool := false

/-- What happens in a world. -/
inductive Moment
  /-- The state in a store has become a value, and its listeners are about to be called. -/
  | changed (store : StoreId) (value : OrderedValue)
  /-- All listeners of a change have been called. -/
  | told (store : StoreId)
  /-- A listener is called in the round of a change. The round is known by how long the history was
  when the change had just been recorded. -/
  | called (store : StoreId) (id : SubscriptionId) (round : Nat)
  /-- A subscription has begun. -/
  | subscribed (store : StoreId) (id : SubscriptionId)
  /-- A subscription has ended. -/
  | unsubscribed (store : StoreId) (id : SubscriptionId)
  /-- Entries have been merged into the object at a handle. Besides the object as it was, it is said
  how much had happened before. -/
  | merged (h : Handle) (old entries : State) (before : Nat)
  /-- A session starts to compile its template. -/
  | began (s : SessionId)
  /-- A session shows the result. -/
  | ended (s : SessionId)
  | reported (d : Diagnostic)
  deriving Repr

/-- The world of an engine. -/
structure World (σ : Type) where
  /-- The state of the caller. -/
  host : σ
  /-- Where diagnostics go that nobody collects. -/
  log : Diagnostic → σ → σ
  engine : Engine σ
  stores : List (Store σ) := []
  sessions : OrderedMap SessionId Session := []
  nextSession : SessionId := 0
  files : FileTree := []
  /-- The time on the clock, in milliseconds. -/
  now : Nat := 0
  /-- What happened, latest first. -/
  history : List Moment := []

/-- A computation in a world. -/
abbrev Run (σ α : Type) := StateT (World σ) Option α

variable {σ : Type}

namespace World

/-! ## Looking -/

/-- The value of a store. -/
def state? (w : World σ) (store : StoreId) : Option OrderedValue :=
  w.stores[store]?.map Store.value

/-- The value at a handle. -/
def value? (w : World σ) (h : Handle) : Option Value :=
  (w.state? h.store).bind fun v => v.1.resolve? h.path

/-- The object at a handle, or the empty one if it is something else. -/
def snapshot (w : World σ) (h : Handle) : Fields := ((w.value? h).bind Value.fields?).getD []

theorem ordered_snapshot (w : World σ) (h : Handle) : (Value.object (w.snapshot h)).Ordered := by
  rw [snapshot]
  cases hfields : (w.value? h).bind Value.fields? with
  | none => exact Value.ordered_object Fields.inOrder_nil nofun
  | some fields =>
    -- the fields of the value at a handle are those that its root has at the handle's path
    rw [value?, Option.bind_assoc] at hfields
    obtain ⟨root, -, hroot⟩ := Option.bind_eq_some_iff.1 hfields
    exact root.2.objectAt? hroot

/-- `World.snapshot`, with its order. -/
def stateAt (w : World σ) (h : Handle) : State := ⟨w.snapshot h, w.ordered_snapshot h⟩

/-- The value under a key of the object at a handle. -/
def get? (w : World σ) (h : Handle) (key : String) : Option Value :=
  ((w.value? h).bind Value.fields?).bind fun fields => fields.find? key

/-- The handle one step further, if it leads to an array or an object. -/
def descend? (w : World σ) (h : Handle) (s : Segment) : Option Handle :=
  let next : Handle := { h with path := h.path ++ [s] }
  if (w.value? next).any Value.isNested then some next else none

/-- A session. -/
def session? (w : World σ) (s : SessionId) : Option Session := OrderedMap.find? w.sessions s

/-- The root of what a session shows, unless it is just being refreshed. -/
def element? (w : World σ) (s : SessionId) : Option NodeId :=
  (w.session? s).bind fun session => if session.isRefreshing then none else session.shown

/-- The markup of what a session shows. -/
def outerHtml? (w : World σ) (s : SessionId) : Option String :=
  (w.element? s).bind fun root =>
    if w.engine.isLocked then none else some (w.engine.dom.outerHtml root)

/-! ## Changing -/

/-- The world with a store changed. -/
def modifyStore (w : World σ) (store : StoreId) (f : Store σ → Store σ) : World σ :=
  { w with stores := w.stores.modify store f }

/-- The world with a session changed. -/
def modifySession (w : World σ) (s : SessionId) (f : Session → Session) : World σ :=
  match w.session? s with
  | some session => { w with sessions := OrderedMap.put w.sessions s (f session) }
  | none => w

/-- The world with the engine changed. -/
def modifyEngine (w : World σ) (f : Engine σ → Engine σ) : World σ :=
  { w with engine := f w.engine }

/-- The world with one moment more. -/
def record (w : World σ) (m : Moment) : World σ := { w with history := m :: w.history }

/-- The world after a diagnostic has gone to a sink. -/
def report (w : World σ) (sink : Diagnostic → σ → σ) (d : Diagnostic) : World σ :=
  { w with host := sink d w.host, history := .reported d :: w.history }

/-- The world after a diagnostic of the engine. -/
def emit (w : World σ) (d : Diagnostic) : World σ := w.report w.engine.sink d

/-- The world with a new store for a state, and the name of the store. -/
def addStore (w : World σ) (state : State) (sink : Diagnostic → σ → σ) : World σ × StoreId :=
  ({ w with stores := w.stores ++ [{ value := state.root, sink := sink }] }, w.stores.length)

end World

/-! ## Building -/

/-- What an engine is built with. -/
structure EngineOptions (σ : Type) where
  config : Config := {}
  /-- Where diagnostics go, if not to the log. -/
  sink? : Option (Diagnostic → σ → σ) := none
  source : Option (TemplateSource σ) := none
  /-- Where states are kept, if not where the configuration says. -/
  storage? : Option (StateStorage σ) := none
  onInitialize : σ → σ := id
  onDestroy : σ → σ := id

/-- Where an engine keeps states: nowhere, if the configuration does not ask for it. -/
def EngineOptions.storage (options : EngineOptions σ) : Option (StateStorage σ) :=
  options.config.persistence.map fun p =>
    options.storage?.getD (.builtin (.ofKind p.backend))

/-- The world with a newly built engine. -/
def World.build (options : EngineOptions σ) (log : Diagnostic → σ → σ) (files : FileTree)
    (host : σ) : World σ where
  host := options.onInitialize host
  log := log
  engine := {
    config := options.config
    sink := options.sink?.getD log
    cache := {
      limit := options.config.cacheLimit
      lifetime := options.config.cacheExpirationMs }
    source := options.source
    storage := options.storage
    onDestroy := options.onDestroy }
  files := files

end LiveMarkup
