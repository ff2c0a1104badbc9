import LiveMarkup.Engine.Write

/-!
# Rendering

A session compiles its template in its state and shows the result. It does so again on every change
of the state (`Run.onChange`), after the state was kept in the storage. A session that is just
compiling is not rendered again: a request for it is reported and left out.

* `Run.mount` shows a new tree, `Run.refresh` changes the one that is shown.
* `Run.start` opens a session, and `Run.close` ends it.
* `Run.update`, `Run.dispatch`, `Run.startFromSource` and `Run.destroy` are what else a caller
  does with an engine and its sessions.

As for writes, all of them are given what it means to `call` something.
-/

namespace LiveMarkup

namespace Run

variable {σ : Type} (call : Callback σ → Run σ Unit)

/-- Reports a diagnostic to the sink of the engine. -/
def emit (d : Diagnostic) : Run σ Unit := modify fun w => w.emit d

/-- Applies a function of the caller's state to it. -/
def withHost {α : Type} (f : σ → α × σ) : Run σ α :=
  modifyGet fun w =>
    let (a, host) := f w.host
    (a, { w with host := host })

/-! ## Storage -/

/-- Reports that the storage failed. -/
def reportStorage (key : String) (error : StorageError) : Run σ Unit :=
  emit (.storageFailed key error.message)

/-- The state that was kept, if there is one. Whatever the storage answers is put in order. -/
def restore : Run σ (Option State) := do
  let w ← get
  match w.engine.config.persistence, w.engine.storage with
  | some persistence, some storage => do
    let key := persistence.storageKey
    let stored ← match storage with
      | .builtin storage => pure (storage.load w.files key)
      | .custom load _ => withHost (load key)
    match stored with
    | .ok state? => pure (state?.map .ofFields)
    | .error e => do
      reportStorage key e
      pure none
  | _, _ => pure none

/-- Keeps a state in the storage, if there is one. -/
def persist (state : Fields) : Run σ Unit := do
  let w ← get
  match w.engine.config.persistence, w.engine.storage with
  | some persistence, some storage => do
    let key := persistence.storageKey
    let result ← match storage with
      | .builtin storage => do
        let (result, storage, files) := storage.save w.files key state
        modify fun w =>
          { (w.modifyEngine fun e => { e with storage := some (.builtin storage) }) with files }
        pure result
      | .custom _ save => withHost (save key state)
    match result with
    | .ok () => pure ()
    | .error e => reportStorage key e
  | _, _ => pure ()

/-! ## Compiling and showing -/

/-- Lets what happened while a template was compiled take effect. -/
def replay (directives : OrderedMap String (ActiveDirective σ)) :
    List Template.Event → Run σ Unit
  | [] => pure ()
  | .reported d :: rest => do
    emit d
    replay directives rest
  | .expanded name arguments content state :: rest => do
    match OrderedMap.find? directives name with
    | some directive => call (.script (directive.script arguments content state))
    | none => pure ()
    replay directives rest

/-- The markup of a template in a state. -/
def compile (template : String) (state : Fields) : Run σ (List Char) := do
  let engine := (← get).engine
  let settings : Template.Settings :=
    { directives := engine.directives.map fun d => ⟨d.1, d.2.expand⟩
      defaultValue := engine.config.defaultValue.toList }
  let expansion := Template.compile settings template.toList state
  replay call engine.directives expansion.events
  pure expansion.text

/-- Shows a display for a session. -/
def present (s : SessionId) (display : Display) : Run σ Unit := do
  match display.defect? with
  | some d => emit d
  | none => pure ()
  modify fun w =>
    (w.modifyEngine fun e => { e with dom := display.dom }).modifySession s fun session =>
      { session with shown := display.root? }

/-- Compiles the template of a session and shows the markup as `display` says, given what is shown
already. Answers with the root, or with none if nothing could be shown. -/
def render (display : Dom → Option NodeId → List Char → Display) (s : SessionId) :
    Run σ (Option NodeId) := do
  let w ← get
  match w.session? s with
  | none => pure none
  | some session =>
    if session.isRefreshing then do
      emit .reentrantRefresh
      pure none
    else do
      modify fun w =>
        (w.modifySession s fun session => { session with isRefreshing := true }).record (.began s)
      let markup ← compile call session.template (w.snapshot (.root session.store))
      let w ← get
      let root? ← if w.engine.isLocked then do
          emit .reentrantRefresh
          pure none
        else do
          let shown := display w.engine.dom session.shown markup
          present s shown
          pure shown.root?
      modify fun w =>
        (w.modifySession s fun session => { session with isRefreshing := false }).record (.ended s)
      pure root?

/-- Shows a session as a new tree. The old one is left as it is. -/
def mount [Html.Tokenizer] (s : SessionId) : Run σ (Option NodeId) :=
  render call (fun dom _ markup => dom.mount markup) s

/-- Shows a session in place of what it showed. -/
def refresh [Html.Tokenizer] (s : SessionId) : Run σ Unit := do
  let _ ← render call (fun dom shown markup => dom.refresh shown markup) s

/-- What a session does when its state changes. -/
def onChange [Html.Tokenizer] (s : SessionId) : Run σ Unit := do
  let w ← get
  match w.session? s with
  | none => pure ()
  | some session => do
    persist (w.snapshot (.root session.store))
    refresh call s

/-! ## Sessions -/

/-- Opens a session for a template. It starts in the state that was kept, or else in the given
one. -/
def start [Html.Tokenizer] (template : String) (state : State) : Run σ SessionId := do
  let store ← modifyGet fun w =>
    let (w, store) := w.addStore state w.engine.sink
    (store, w)
  match ← restore with
  | some stored => modify fun w => w.modifyStore store fun s => { s with value := stored.root }
  | none => pure ()
  let s ← modifyGet fun w =>
    (w.nextSession, { w with
      sessions := OrderedMap.put w.sessions w.nextSession { store, template }
      nextSession := w.nextSession + 1 })
  let id ← subscribe store (.refresh s)
  modify fun w => w.modifySession s fun session => { session with subscription := id }
  let _ ← mount call s
  pure s

/-- Ends a session. Its state and what it shows stay as they are. -/
def close (s : SessionId) : Run σ Unit := do
  match (← get).session? s with
  | none => pure ()
  | some session => do
    let _ ← unsubscribe session.store session.subscription
    modify fun w => { w with sessions := OrderedMap.erase w.sessions s }

/-- Writes entries into the state of a session, and refreshes it once more. -/
def update [Html.Tokenizer] (s : SessionId) (entries : State) : Run σ Unit := do
  match (← get).session? s with
  | none => pure ()
  | some session => do
    let _ ← merge call (.root session.store) entries
    refresh call s

/-- The attribute that names the event handler of an element. -/
def eventAttribute : String := "data-event"

/-- Runs the event handler of a node; whether there was one. -/
def dispatch (s : SessionId) (node : NodeId) : Run σ Bool := do
  let w ← get
  match w.session? s with
  | none => pure false
  | some session =>
    match if w.engine.isLocked then none else w.engine.dom.attribute? node eventAttribute with
    | none => pure false
    | some name =>
      match OrderedMap.find? w.engine.handlers name with
      | some handler => do
        call (.script (handler (.root session.store)))
        pure true
      | none => do
        emit (.unknownEventHandler name)
        pure false

/-! ## The engine -/

/-- Fetches a template. -/
def fetch (source : TemplateSource σ) (locator : String) : Run σ (Except FetchError String) :=
  match source with
  | .files source => do
    pure (source.fetch (← get).files locator)
  | .custom fetch => withHost (fetch locator)

/-- What is reported where templates have no source. -/
def noSource : String := "no template source configured"

/-- Opens a session for a fetched template. A failure is reported. -/
def startFromSource [Html.Tokenizer] (locator : String) (state : State) :
    Run σ (Option SessionId) := do
  let w ← get
  match w.engine.source with
  | none => do
    emit (.fetchFailed locator noSource)
    pure none
  | some source => do
    let (fetched, cache) ← w.engine.cache.getOrFetch (fetch source) locator w.now
    modify fun w => w.modifyEngine fun e => { e with cache }
    match fetched with
    | .ok template => some <$> start call template state
    | .error e => do
      emit (.fetchFailed locator e.message)
      pure none

/-- Registers a directive. One with the name of an older one takes its place. -/
def addDirective (name : String) (directive : ActiveDirective σ) : Run σ Unit :=
  modify fun w => w.modifyEngine fun e =>
    { e with directives := OrderedMap.put e.directives name directive }

/-- Registers an event handler. -/
def addHandler (name : String) (handler : EventHandler σ) : Run σ Unit :=
  modify fun w => w.modifyEngine fun e =>
    { e with handlers := OrderedMap.put e.handlers name handler }

/-- Runs what is to be done at the end, and empties the cache. Sessions go on. -/
def destroy : Run σ Unit :=
  modify fun w =>
    ({ w with host := w.engine.onDestroy w.host }).modifyEngine fun e =>
      { e with cache := e.cache.clear }

end Run

end LiveMarkup
