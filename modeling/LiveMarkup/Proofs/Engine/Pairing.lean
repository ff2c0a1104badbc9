import LiveMarkup.Engine.Execute
import LiveMarkup.Proofs.Engine.Ensuring

/-!
# Runs beside runs with other middleware

A run is followed in a second world in which stores have other middleware (`World.relayer`). A
`Pairing` says what a run makes of a world, and of which runs it is wanted that the second one does
the same. Operations are paired with themselves, and so are programs (`Pairing.pairs_execute`), if
what they call is and if writes and merges are.

With the same middleware, and where nothing is wanted of the second run, what is left is a rule for
what every run makes of a world.
-/

namespace LiveMarkup

variable {σ α β : Type}

/-- No state and no list of listeners changes at the moment, and no round of calls goes on. -/
def Moment.IsIdle : Moment → Prop
  | .merged .. | .began _ | .ended _ | .reported _ => True
  | .changed .. | .told _ | .called .. | .subscribed .. | .unsubscribed .. => False

/-- The store with other middleware. -/
def Store.withMiddleware (s : Store σ) (middleware : List (Middleware σ)) : Store σ :=
  { s with middleware }

namespace World

variable {w w' w'' : World σ} {layers : StoreId → List (Middleware σ) → List (Middleware σ)}

/-- Nothing has happened to stores. -/
structure Idles (w w' : World σ) : Prop where
  stores : w'.stores = w.stores
  history : ∃ since, w'.history = since ++ w.history ∧ ∀ m ∈ since, m.IsIdle

theorem idles_of_eq (hs : w'.stores = w.stores) (hh : w'.history = w.history) : w.Idles w' :=
  ⟨hs, [], hh, nofun⟩

/-- Two idle runs one after the other are one. -/
theorem Idles.trans (h : w.Idles w') (h' : w'.Idles w'') : w.Idles w'' := by
  obtain ⟨since, hs, hidle⟩ := h.history
  obtain ⟨since', hs', hidle'⟩ := h'.history
  refine ⟨h'.stores.trans h.stores, since' ++ since, ?_, List.forall_mem_append.2 ⟨hidle', hidle⟩⟩
  rw [hs', hs, List.append_assoc]

theorem idles_record (w : World σ) {m : Moment} (hm : m.IsIdle) : w.Idles (w.record m) :=
  ⟨rfl, [m], rfl, List.forall_mem_singleton.2 hm⟩

theorem idles_report (w : World σ) (sink : Diagnostic → σ → σ) (d : Diagnostic) :
    w.Idles (w.report sink d) :=
  ⟨rfl, [.reported d], rfl, List.forall_mem_singleton.2 trivial⟩

theorem idles_modifySession (w : World σ) (s : SessionId) (f : Session → Session) :
    w.Idles (w.modifySession s f) := by
  rw [modifySession]
  split
  · exact idles_of_eq rfl rfl
  · exact idles_of_eq rfl rfl

/-! ## Other middleware -/

/-- The world in which stores have other middleware. -/
def relayer (w : World σ) (layers : StoreId → List (Middleware σ) → List (Middleware σ)) :
    World σ :=
  { w with stores := w.stores.mapIdx fun store st =>
      st.withMiddleware (layers store st.middleware) }

theorem getElem?_relayer (w : World σ) (store : StoreId) :
    (w.relayer layers).stores[store]? =
      w.stores[store]?.map fun st => st.withMiddleware (layers store st.middleware) :=
  List.getElem?_mapIdx

/-- Values are not touched by middleware that is only added. -/
theorem state?_relayer (w : World σ) (store : StoreId) :
    (w.relayer layers).state? store = w.state? store := by
  rw [state?, state?, getElem?_relayer, Option.map_map]
  rfl

theorem value?_relayer (w : World σ) (h : Handle) : (w.relayer layers).value? h = w.value? h := by
  rw [value?, value?, state?_relayer]

theorem snapshot_relayer (w : World σ) (h : Handle) :
    (w.relayer layers).snapshot h = w.snapshot h := by
  rw [snapshot, snapshot, value?_relayer]

theorem stateAt_relayer (w : World σ) (h : Handle) :
    (w.relayer layers).stateAt h = w.stateAt h :=
  Subtype.ext (w.snapshot_relayer h)

theorem listeners_relayer (w : World σ) (store : StoreId) :
    (w.relayer layers).stores[store]?.map Store.listeners =
      w.stores[store]?.map Store.listeners := by
  rw [getElem?_relayer, Option.map_map]
  rfl

theorem hasListener_relayer (w : World σ) (store : StoreId) (id : SubscriptionId) :
    ((w.relayer layers).stores[store]?).any (fun s => s.hasListener id) =
      (w.stores[store]?).any fun s => s.hasListener id := by
  rw [getElem?_relayer]
  cases w.stores[store]? <;> rfl

/-- It does not matter whether a store is changed before or behind a change of its middleware. -/
theorem relayer_modifyStore (w : World σ)
    (layers : StoreId → List (Middleware σ) → List (Middleware σ)) (store : StoreId)
    (f : Store σ → Store σ) (hf : ∀ st ms, f (st.withMiddleware ms) = (f st).withMiddleware ms)
    (hm : ∀ st, (f st).middleware = st.middleware) :
    (w.modifyStore store f).relayer layers = (w.relayer layers).modifyStore store f := by
  rw [relayer, relayer, modifyStore, modifyStore]
  congr 1
  refine List.ext_getElem? fun i => ?_
  rw [List.getElem?_mapIdx, List.getElem?_modify, List.getElem?_modify, List.getElem?_mapIdx]
  cases w.stores[i]? with
  | none => rfl
  | some st =>
    change some ((if store = i then f st else st).withMiddleware _) =
      some (if store = i then f (st.withMiddleware _) else st.withMiddleware _)
    split
    · rw [hf, hm]
    · rfl

theorem session?_relayer (w : World σ) (s : SessionId) :
    (w.relayer layers).session? s = w.session? s := rfl

theorem relayer_modifySession (w : World σ) (s : SessionId) (f : Session → Session) :
    (w.modifySession s f).relayer layers = (w.relayer layers).modifySession s f := by
  rw [modifySession, modifySession, session?_relayer]
  cases w.session? s <;> rfl

theorem relayer_addStore (w : World σ) (hl : layers w.stores.length [] = []) (state : State)
    (sink : Diagnostic → σ → σ) :
    (w.relayer layers).addStore state sink =
      ((w.addStore state sink).1.relayer layers, (w.addStore state sink).2) := by
  rw [addStore, addStore, relayer, relayer, List.mapIdx_append, List.length_mapIdx]
  simp [Store.withMiddleware, hl]

end World

/-! ## Pairing runs -/

/-- What is said of runs, and of the runs beside them. -/
structure Pairing (σ : Type) where
  /-- The middleware that a store has beside. -/
  layers : StoreId → List (Middleware σ) → List (Middleware σ)
  /-- What a run makes of a world. -/
  Leads : World σ → World σ → Prop
  /-- The worlds from which this is said. -/
  Admits : World σ → Prop
  /-- The worlds to which a run leads only if the one beside it does the same. -/
  Trusts : World σ → Prop
  trans : ∀ {w w' w''}, Leads w w' → Leads w' w'' → Leads w w''
  idles : ∀ {w w'}, w.Idles w' → Leads w w'
  admits : ∀ {w w'}, Leads w w' → Admits w → Admits w'
  trusts : ∀ {w w'}, Leads w w' → Trusts w' → Trusts w
  enlists : ∀ {w store st} (callback), w.stores[store]? = some st →
    Leads w ((w.modifyStore store fun s => s.enlist callback).record (.subscribed store st.nextId))
  dismisses : ∀ {w store id}, (w.stores[store]?).any (fun s => s.hasListener id) = true →
    Leads w ((w.modifyStore store fun s => s.dismiss id).record (.unsubscribed store id))
  addsStore : ∀ w state sink, Leads w (w.addStore state sink).1
  layers_new : ∀ {w}, Admits w → layers w.stores.length [] = []

namespace Pairing

open Run

variable {k : Pairing σ} {w : World σ} {m m' : Run σ α} {f f' : α → Run σ β}

/-- A run from a world is as it is said, and so is the run beside it. -/
def PairsAt (k : Pairing σ) (w : World σ) (m m' : Run σ α) : Prop :=
  ∀ a w', m w = some (a, w') → k.Leads w w' ∧
    (k.Trusts w' → m' (w.relayer k.layers) = some (a, w'.relayer k.layers))

/-- A run from every world is as it is said, and so is the run beside it. -/
def Pairs (k : Pairing σ) (m m' : Run σ α) : Prop := ∀ w, k.Admits w → k.PairsAt w m m'

theorem leads_refl (k : Pairing σ) (w : World σ) : k.Leads w w :=
  k.idles (World.idles_of_eq rfl rfl)

namespace PairsAt

theorem bind (hw : k.Admits w) (h : k.PairsAt w m m') (h' : ∀ a, k.Pairs (f a) (f' a)) :
    k.PairsAt w (m >>= f) (m' >>= f') := by
  intro b w₂ hb
  obtain ⟨a, w₁, ha, hb⟩ := bind_eq_some_iff.1 hb
  obtain ⟨hl, he⟩ := h a w₁ ha
  obtain ⟨hl', he'⟩ := h' a w₁ (k.admits hl hw) b w₂ hb
  exact ⟨k.trans hl hl', fun ht => bind_eq_some_iff.2 ⟨a, _, he (k.trusts hl' ht), he' ht⟩⟩

theorem of_pure (a : α) : k.PairsAt w (pure a) (pure a) := by
  intro b w' hb
  obtain ⟨rfl, rfl⟩ := Prod.mk.inj (Option.some.inj hb)
  exact ⟨k.leads_refl w, fun _ => rfl⟩

theorem of_get {g g' : World σ → Run σ α} (h : k.PairsAt w (g w) (g' (w.relayer k.layers))) :
    k.PairsAt w (get >>= g) (get >>= g') := h

/-- What is read is the same beside. -/
theorem of_get_of_eq {g g' : World σ → Run σ α} (he : g' (w.relayer k.layers) = g' w)
    (h : k.PairsAt w (g w) (g' w)) : k.PairsAt w (get >>= g) (get >>= g') :=
  fun a w' ha => (h a w' ha).imp id fun h' ht => (congrFun he _).trans (h' ht)

theorem of_modifyGet {g g' : World σ → α × World σ} (hl : k.Leads w (g w).2)
    (he : g' (w.relayer k.layers) = ((g w).1, (g w).2.relayer k.layers)) :
    k.PairsAt w (modifyGet g) (modifyGet g') := by
  intro a w' ha
  obtain ⟨rfl, rfl⟩ := Prod.mk.inj (Option.some.inj ha)
  exact ⟨hl, fun _ => congrArg some he⟩

theorem of_modify {g g' : World σ → World σ} (hl : k.Leads w (g w))
    (he : g' (w.relayer k.layers) = (g w).relayer k.layers) :
    k.PairsAt w (modify g) (modify g') :=
  of_modifyGet hl (congrArg (Prod.mk ()) he)

theorem of_set {w' v' : World σ} (hl : k.Leads w w') (he : v' = w'.relayer k.layers) :
    k.PairsAt w (MonadStateOf.set w') (MonadStateOf.set v') :=
  of_modify hl he

end PairsAt

namespace Pairs

/-- Paired runs one after the other are paired. -/
theorem bind (h : k.Pairs m m') (h' : ∀ a, k.Pairs (f a) (f' a)) :
    k.Pairs (m >>= f) (m' >>= f') :=
  fun w hw => (h w hw).bind hw h'

theorem of_pure (a : α) : k.Pairs (pure a) (pure a) := fun _ _ => .of_pure a

theorem of_get {g g' : World σ → Run σ α} (he : ∀ w, g' (World.relayer w k.layers) = g' w)
    (h : ∀ w, k.Admits w → k.PairsAt w (g w) (g' w)) : k.Pairs (get >>= g) (get >>= g') :=
  fun w hw => .of_get_of_eq (he w) (h w hw)

theorem of_modify {g : World σ → World σ} (hl : ∀ w : World σ, w.Idles (g w))
    (he : ∀ w, g (World.relayer w k.layers) = (g w).relayer k.layers) :
    k.Pairs (modify g) (modify g) :=
  fun w _ => .of_modify (k.idles (hl w)) (he w)

theorem of_failure : k.Pairs (failure : Run σ α) m' := fun _ _ _ _ h => nomatch h

end Pairs

/-! ## Rendering -/

theorem pairs_emit (d : Diagnostic) : k.Pairs (emit d) (emit d) :=
  .of_modify (fun w => w.idles_report _ d) fun _ => rfl

/-- The caller's own data have no part in what is paired. -/
theorem pairs_withHost (g : σ → α × σ) : k.Pairs (withHost g) (withHost g) :=
  fun _ _ => .of_modifyGet (k.idles (World.idles_of_eq rfl rfl)) rfl

theorem pairs_persist (state : Fields) : k.Pairs (persist state) (persist state) := by
  unfold persist
  refine .of_get (fun _ => rfl) fun w hw => ?_
  split
  · next persistence storage _ _ =>
    cases storage with
    | builtin storage =>
      refine .bind hw (PairsAt.of_modify ?_ ?_) fun _ => (Pairs.of_pure _).bind fun result => ?_
      · exact k.idles (World.idles_of_eq rfl rfl)
      · rfl
      · cases result with
        | ok => exact .of_pure ()
        | error e => exact pairs_emit _
    | custom load save =>
      refine .bind hw (pairs_withHost _ w hw) fun result => ?_
      cases result with
      | ok => exact .of_pure ()
      | error e => exact pairs_emit _
  · exact .of_pure ()

section

variable {call call' : Callback σ → Run σ Unit}

/-- Events are replayed alike, one callback after the other. -/
theorem pairs_replay (hcall : ∀ c, k.Pairs (call c) (call' c))
    (directives : OrderedMap String (ActiveDirective σ)) (events : List Template.Event) :
    k.Pairs (replay call directives events) (replay call' directives events) := by
  induction events with
  | nil => exact .of_pure ()
  | cons e rest ih =>
    cases e with
    | reported d => exact (pairs_emit d).bind fun _ => ih
    | expanded name arguments content state =>
      rw [replay, replay]
      cases OrderedMap.find? directives name with
      | none => exact ih
      | some directive => exact (hcall _).bind fun _ => ih

theorem pairs_compile (hcall : ∀ c, k.Pairs (call c) (call' c)) (template : String)
    (state : Fields) : k.Pairs (compile call template state) (compile call' template state) := by
  unfold compile
  refine .of_get (fun _ => rfl) fun w hw => ?_
  exact .bind hw (pairs_replay hcall _ _ w hw) fun _ => .of_pure _

theorem pairs_present (s : SessionId) (display : Display) :
    k.Pairs (present s display) (present s display) := by
  have hshow : k.Pairs
      (modify fun w => (w.modifyEngine fun e => { e with dom := display.dom }).modifySession s
        fun session => { session with shown := display.root? })
      (modify fun w => (w.modifyEngine fun e => { e with dom := display.dom }).modifySession s
        fun session => { session with shown := display.root? }) := by
    refine .of_modify (fun w => ?_) fun w => ?_
    · have hdom : w.Idles (w.modifyEngine fun e => { e with dom := display.dom }) :=
        World.idles_of_eq rfl rfl
      exact hdom.trans (World.idles_modifySession _ s _)
    · exact (World.relayer_modifySession (w.modifyEngine fun e =>
        { e with dom := display.dom }) s _).symm
  unfold present
  cases display.defect? with
  | none => exact hshow
  | some d => exact (pairs_emit d).bind fun _ => hshow

theorem pairs_turn (s : SessionId) (g : Session → Session) (moment : Moment)
    (hm : moment.IsIdle) :
    k.Pairs (modify fun w => (w.modifySession s g).record moment)
      (modify fun w => (w.modifySession s g).record moment) :=
  .of_modify (fun w => (w.idles_modifySession s g).trans (World.idles_record _ hm))
    fun w => congrArg (World.record · moment) (World.relayer_modifySession w s g).symm

/-- Sessions render alike, since middleware is not looked at. -/
theorem pairs_render (hcall : ∀ c, k.Pairs (call c) (call' c))
    (display : Dom → Option NodeId → List Char → Display) (s : SessionId) :
    k.Pairs (render call display s) (render call' display s) := by
  unfold render
  refine .of_get (fun w => ?_) fun w hw => ?_
  · simp only [World.snapshot_relayer]
    rfl
  cases w.session? s with
  | none => exact .of_pure none
  | some session =>
    dsimp only
    split
    · exact .bind hw (pairs_emit _ w hw) fun _ => .of_pure none
    · refine .bind hw (pairs_turn s _ (.began s) trivial w hw) fun _ => ?_
      refine (pairs_compile hcall _ _).bind fun markup => ?_
      refine .of_get (fun w => rfl) fun w hw => ?_
      split
      · refine .bind hw (pairs_emit _ w hw) fun _ => (Pairs.of_pure none).bind fun root? => ?_
        exact (pairs_turn s _ (.ended s) trivial).bind fun _ => .of_pure root?
      · refine .bind hw (pairs_present s _ w hw) fun _ => (Pairs.of_pure _).bind fun root? => ?_
        exact (pairs_turn s _ (.ended s) trivial).bind fun _ => .of_pure root?

theorem pairs_onChange [Html.Tokenizer] (hcall : ∀ c, k.Pairs (call c) (call' c)) (s : SessionId) :
    k.Pairs (onChange call s) (onChange call' s) := by
  unfold onChange
  refine .of_get (fun w => ?_) fun w hw => ?_
  · simp only [World.snapshot_relayer]
    rfl
  cases w.session? s with
  | none => exact .of_pure ()
  | some session =>
    refine .bind hw (pairs_persist _ w hw) fun _ => ?_
    exact (pairs_render hcall _ s).bind fun _ => .of_pure ()

/-! ## Stores -/

theorem pairs_subscribe (store : StoreId) (callback : Callback σ) :
    k.Pairs (subscribe store callback) (subscribe store callback) := by
  intro w hw
  unfold subscribe
  refine .of_get ?_
  rw [World.getElem?_relayer]
  cases hst : w.stores[store]? with
  | none => exact .of_pure 0
  | some st =>
    refine .bind hw (.of_set (k.enlists callback hst) ?_) fun _ => .of_pure st.nextId
    have hlist := w.relayer_modifyStore k.layers store (fun s => s.enlist callback)
      (fun _ _ => rfl) fun _ => rfl
    exact congrArg (World.record · (.subscribed store st.nextId)) hlist.symm

theorem pairs_unsubscribe (store : StoreId) (id : SubscriptionId) :
    k.Pairs (unsubscribe store id) (unsubscribe store id) := by
  intro w hw
  unfold unsubscribe
  refine .of_get ?_
  rw [World.hasListener_relayer]
  split
  · next h =>
    refine .bind hw (.of_set (k.dismisses h) ?_) fun _ => .of_pure true
    have hlist := w.relayer_modifyStore k.layers store (fun s => s.dismiss id)
      (fun _ _ => rfl) fun _ => rfl
    exact congrArg (World.record · (.unsubscribed store id)) hlist.symm
  · exact .of_pure false

section

variable (hwrite : ∀ store change, k.Pairs (write call store change) (write call' store change))

include hwrite

theorem pairs_remove (h : Handle) (key : String) :
    k.Pairs (Run.remove call h key) (Run.remove call' h key) := by
  unfold Run.remove
  refine .of_get (fun w => ?_) fun w hw => ?_
  · simp only [World.state?_relayer]
  split
  · exact .of_pure none
  · next old _ _ => exact .bind hw (hwrite h.store _ w hw) fun _ => .of_pure (some old)

/-- If single writes are paired, writes of many entries are. -/
theorem pairs_setAll (h : Handle) (entries : List (String × OrderedValue)) :
    k.Pairs (setAll call h entries) (setAll call' h entries) := by
  induction entries with
  | nil => exact .of_pure 0
  | cons entry rest ih =>
    exact (hwrite h.store _).bind fun _ => ih.bind fun _ => .of_pure _

theorem pairs_removeAll (h : Handle) (keys : List String) :
    k.Pairs (removeAll call h keys) (removeAll call' h keys) := by
  induction keys with
  | nil => exact .of_pure 0
  | cons key rest ih => exact (pairs_remove hwrite h key).bind fun _ => ih.bind fun _ => .of_pure _

end

/-- The same middleware makes the same of a state on both sides. -/
theorem pairs_applyMiddleware (hcall : ∀ c, k.Pairs (call c) (call' c)) (store : StoreId)
    (old : State) (layers : List (Middleware σ)) (position : Nat) (next : State) :
    k.Pairs (applyMiddleware call store old position layers next)
      (applyMiddleware call' store old position layers next) := by
  induction layers generalizing position next with
  | nil => exact .of_pure next
  | cons layer rest ih =>
    rw [applyMiddleware, applyMiddleware]
    refine (hcall _).bind fun _ => ?_
    split
    · exact ih _ _
    · refine .bind (fun w _ => ?_) fun _ => ih _ _
      refine .of_modify (k.idles ?_) ?_
      · split
        · exact World.idles_report _ _ _
        · exact World.idles_of_eq rfl rfl
      · rw [World.getElem?_relayer]
        cases w.stores[store]? <;> rfl

theorem pairs_mergeThrough (hcall : ∀ c, k.Pairs (call c) (call' c))
    (hwrite : ∀ store change, k.Pairs (write call store change) (write call' store change))
    (h : Handle) (old entries : State) (layers : List (Middleware σ)) :
    k.Pairs (mergeThrough call h old entries layers)
      (mergeThrough call' h old entries layers) := by
  cases layers with
  | nil => exact pairs_setAll hwrite h entries.entries
  | cons layer layers =>
    refine (pairs_applyMiddleware hcall h.store old _ 0 _).bind fun next => ?_
    refine (pairs_removeAll hwrite h _).bind fun _ => ?_
    exact (pairs_setAll hwrite h next.entries).bind fun _ => .of_pure _

/-- A merge is paired with what is paired with its writing. -/
theorem pairsAt_merge {h : Handle} {entries : State} (hw : k.Admits w)
    (hthrough : k.PairsAt w (mergeThrough call h (w.stateAt h) entries (middlewareOf w h))
      (mergeThrough call' h (w.stateAt h) entries (middlewareOf (w.relayer k.layers) h))) :
    k.PairsAt w (merge call h entries) (merge call' h entries) := by
  unfold merge
  refine .of_get ?_
  rw [World.stateAt_relayer]
  refine .bind hw hthrough fun changed => .bind ?_ fun _ => .of_pure changed
  exact .of_modify (fun w' => w'.idles_record trivial) fun _ => rfl

/-! ## Programs -/

/-- A program is paired with itself, if what it calls is, and if its writes and merges are. -/
theorem pairs_execute [Html.Tokenizer] (hcall : ∀ c, k.Pairs (call c) (call' c))
    (hwrite : ∀ store change, k.Pairs (write call store change) (write call' store change))
    (hmerge : ∀ h entries, k.Pairs (merge call h entries) (merge call' h entries))
    (p : Program σ) : k.Pairs (execute call p) (execute call' p) := by
  induction p with
  | done => exact .of_pure ()
  | ask next ih => exact .of_get (fun _ => rfl) fun w hw => ih _ w hw
  | tell f next ih =>
    refine .bind (.of_modify (fun _ => ?_) fun _ => rfl) fun _ => ih
    exact World.idles_of_eq rfl rfl
  | value h next ih =>
    refine .of_get (fun w => ?_) fun w hw => ih _ w hw
    rw [World.value?_relayer]
  | set h key v next ih => exact (hwrite h.store _).bind ih
  | setIndex h index v next ih => exact (hwrite h.store _).bind ih
  | remove h key next ih => exact (pairs_remove hwrite h key).bind ih
  | merge h entries next ih => exact (hmerge h _).bind ih
  | subscribe store listener next _ ih => exact (pairs_subscribe store _).bind ih
  | unsubscribe store id next ih => exact (pairs_unsubscribe store id).bind ih
  | addDirective name expand script next _ ih =>
    refine .bind (.of_modify (fun _ => ?_) fun _ => rfl) fun _ => ih
    exact World.idles_of_eq rfl rfl
  | create state next ih =>
    refine .bind (fun w hw => .of_modifyGet (k.addsStore w _ _) ?_) ih
    have hadd := w.relayer_addStore (k.layers_new hw) (.ofFields state) w.log
    exact congrArg Prod.swap hadd
  | element s next ih => exact .of_get (fun _ => rfl) fun w hw => ih _ w hw
  | outerHtml s next ih => exact .of_get (fun _ => rfl) fun w hw => ih _ w hw
  | render s next ih => exact (pairs_render hcall _ s).bind ih

end

/-! ## The same middleware -/

section

variable (hlayers : ∀ store middleware, k.layers store middleware = middleware)

include hlayers

/-- Where all stores have the same middleware on both sides, merges are paired. -/
theorem pairs_merge {call call' : Callback σ → Run σ Unit} (hcall : ∀ c, k.Pairs (call c) (call' c))
    (hwrite : ∀ store change, k.Pairs (write call store change) (write call' store change))
    (h : Handle) (entries : State) : k.Pairs (merge call h entries) (merge call' h entries) := by
  intro w hw
  refine pairsAt_merge hw ?_
  have hsame : middlewareOf (w.relayer k.layers) h = middlewareOf w h := by
    rw [middlewareOf, middlewareOf, World.getElem?_relayer, Option.map_map]
    congr 2
    exact congrArg (Option.map · _) (funext fun st => hlayers h.store st.middleware)
  rw [hsame]
  exact pairs_mergeThrough hcall hwrite h _ entries _ w hw

/-- What is called is paired with itself, if writes are that lead to such calls. -/
theorem pairs_invoke [Html.Tokenizer]
    (hwrite : ∀ depth : Nat, (∀ c, k.Pairs (invoke depth c) (invoke depth c)) → ∀ store change,
      k.Pairs (write (invoke depth) store change) (write (invoke depth) store change))
    (depth : Nat) (c : Callback σ) : k.Pairs (invoke depth c) (invoke depth c) := by
  induction depth generalizing c with
  | zero => exact .of_failure
  | succ depth ih =>
    cases c with
    | script p =>
      exact pairs_execute ih (hwrite depth ih) (pairs_merge hlayers ih (hwrite depth ih)) p
    | refresh s => exact pairs_onChange ih s

end

end Pairing

end LiveMarkup
