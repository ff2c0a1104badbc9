import LiveMarkup.Proofs.Engine.Depot
import LiveMarkup.Proofs.Engine.Tracking
import LiveMarkup.Proofs.Engine.Upholding
import LiveMarkup.Proofs.Engine.Wiring

/-!
# Keeping the state of a session

A session saves its state whenever it is told of a change, before it is refreshed. Whatever writes
back in the course of that, also inside of other changes, the storage does not fall behind
(`Keeper.Tracks`): only between a change of the state and the call of the session is it `late`.

What a caller has called must not reach into the storage behind the engine's back, and must not end
the subscription of the session (`Program.Heeds`). Nothing else is asked of it.
-/

namespace LiveMarkup

variable {σ α : Type}

/-! ## Callers that mind the storage -/

/-- The program does not reach into the storage, and ends no subscription that came first on its
store, as that of a session does. -/
def Program.Heeds (k : Keeper σ) : Program σ → Prop
  | .done => True
  | .ask next => ∀ host, (next host).Heeds k
  | .tell f next => k.Spares f ∧ next.Heeds k
  | .value _ next => ∀ v, (next v).Heeds k
  | .set _ _ _ next => ∀ changed, (next changed).Heeds k
  | .setIndex _ _ _ next => ∀ changed, (next changed).Heeds k
  | .remove _ _ next => ∀ old, (next old).Heeds k
  | .merge _ _ next => ∀ changed, (next changed).Heeds k
  | .subscribe _ listener next => listener.Heeds k ∧ ∀ id, (next id).Heeds k
  | .unsubscribe _ id next => id ≠ 0 ∧ ∀ ended, (next ended).Heeds k
  | .addDirective _ _ script next =>
    (∀ arguments content state, (script arguments content state).Heeds k) ∧ next.Heeds k
  | .create _ next => ∀ store, (next store).Heeds k
  | .element _ next => ∀ root, (next root).Heeds k
  | .outerHtml _ next => ∀ markup, (next markup).Heeds k
  | .render _ next => ∀ root, (next root).Heeds k

/-- What is called minds the storage. -/
def Callback.Heeds (k : Keeper σ) : Callback σ → Prop
  | .script p => p.Heeds k
  | .refresh _ => True

/-- What belongs to a store minds the storage. -/
structure Store.Heeds (st : Store σ) (k : Keeper σ) : Prop where
  listeners : ∀ l ∈ st.listeners, l.callback.Heeds k
  middleware : ∀ layer ∈ st.middleware, ∀ next old, (layer.script next old).Heeds k
  sink : ∀ d, k.Spares (st.sink d)

namespace World

/-- States are kept under the key, and whatever may be called minds the storage. -/
structure Heeds (w : World σ) (k : Keeper σ) : Prop where
  storageKey : w.storageKey? = some k.key
  directives : ∀ d ∈ w.engine.directives, ∀ arguments content state,
    (d.2.script arguments content state).Heeds k
  handlers : ∀ h ∈ w.engine.handlers, ∀ handle, (h.2 handle).Heeds k
  stores : ∀ st ∈ w.stores, st.Heeds k
  sink : ∀ d, k.Spares (w.engine.sink d)
  log : ∀ d, k.Spares (w.log d)

/-- The rules are the same, and no state was written. -/
structure Retains (w w' : World σ) : Prop where
  config : w'.engine.config = w.engine.config
  directives : w'.engine.directives = w.engine.directives
  handlers : w'.engine.handlers = w.engine.handlers
  sink : w'.engine.sink = w.engine.sink
  log : w'.log = w.log
  stores : w'.stores = w.stores
  home : w'.home = w.home
  calm : w.Calm w'

variable {w w' w'' : World σ}

theorem retains_of_eq (hconfig : w'.engine.config = w.engine.config)
    (hdirectives : w'.engine.directives = w.engine.directives)
    (hhandlers : w'.engine.handlers = w.engine.handlers)
    (hsink : w'.engine.sink = w.engine.sink) (hlog : w'.log = w.log)
    (hstores : w'.stores = w.stores) (hsessions : w'.sessions = w.sessions) (hcalm : w.Calm w') :
    w.Retains w' := by
  refine ⟨hconfig, hdirectives, hhandlers, hsink, hlog, hstores, ?_, hcalm⟩
  funext s
  rw [World.home, World.session?, hsessions]
  rfl

theorem Retains.trans (h : w.Retains w') (h' : w'.Retains w'') : w.Retains w'' :=
  ⟨h'.config.trans h.config, h'.directives.trans h.directives, h'.handlers.trans h.handlers,
    h'.sink.trans h.sink, h'.log.trans h.log, h'.stores.trans h.stores, h'.home.trans h.home,
    h.calm.trans h'.calm⟩

/-- Whether everybody minds the storage is a matter of the rules alone. -/
theorem Heeds.retains (hw : w.Heeds k) (h : w.Retains w') : w'.Heeds k := by
  obtain ⟨hkey, hdirectives, hhandlers, hstores, hsink, hlog⟩ := hw
  refine ⟨?_, h.directives.symm ▸ hdirectives, h.handlers.symm ▸ hhandlers, h.stores.symm ▸ hstores,
    h.sink.symm ▸ hsink, h.log.symm ▸ hlog⟩
  rw [storageKey?, h.config]
  exact hkey

theorem retains_report (w : World σ) (sink : Diagnostic → σ → σ) (d : Diagnostic) :
    w.Retains (w.report sink d) :=
  retains_of_eq rfl rfl rfl rfl rfl rfl rfl ⟨[.reported d], rfl, fun _ => rfl⟩

theorem retains_record (w : World σ) {m : Moment} (hm : ∀ store, m.state? store = none) :
    w.Retains (w.record m) :=
  retains_of_eq rfl rfl rfl rfl rfl rfl rfl (sameStores_record w hm).calm

theorem retains_modifySession (w : World σ) (s : SessionId) {f : Session → Session}
    (hf : ∀ session, (f session).store = session.store) : w.Retains (w.modifySession s f) := by
  have hhome : (w.modifySession s f).home = w.home := by
    funext other
    rw [home, session?_modifySession]
    split
    · next he =>
      rw [he, Option.map_map]
      exact congrArg (Option.map · _) (funext hf)
    · rfl
  rw [modifySession] at hhome ⊢
  split at hhome
  · exact ⟨rfl, rfl, rfl, rfl, rfl, rfl, hhome, calm_of_eq rfl⟩
  · exact ⟨rfl, rfl, rfl, rfl, rfl, rfl, rfl, calm_of_eq rfl⟩

end World

namespace Keeper

variable {k : Keeper σ} {x : Watch} {late : Bool} {w w' : World σ}

/-! ## What the storage holds -/

/-- What the storage holds, it still holds. -/
def Carries (k : Keeper σ) (w w' : World σ) : Prop :=
  ∀ d state?, w.depot? = some d → k.Holds d state? →
    ∃ d', w'.depot? = some d' ∧ k.Holds d' state?

theorem carries_of_eq (h : w'.depot? = w.depot?) : k.Carries w w' :=
  fun d _ hd hholds => ⟨d, h.trans hd, hholds⟩

/-- A caller's own data may change as long as what is stored in it is spared. -/
theorem carries_of_spares {f : σ → σ} (hf : k.Spares f)
    (h : w'.depot? = w.depot?.map fun d => { d with host := f d.host }) : k.Carries w w' :=
  fun d state? hd hholds => ⟨_, by rw [h, hd]; rfl, hf d state? hholds⟩

theorem carries_report {sink : Diagnostic → σ → σ} {d : Diagnostic} (hsink : k.Spares (sink d)) :
    k.Carries w (w.report sink d) := by
  refine carries_of_spares hsink ?_
  rw [World.depot?, World.depot?, Option.map_map]
  rfl

/-! ## Keeping track -/

/-- The storage holds the state of the session, unless it is late, or there was no change. The
session is the only one, and will be told of changes first. -/
structure Tracks (k : Keeper σ) (x : Watch) (late : Bool) (w : World σ) : Prop where
  heeds : w.Heeds k
  home : ∀ s, w.home s = if s = x.session then some x.store else none
  listener : ∃ st rest, w.stores[x.store]? = some st ∧
    st.listeners = ⟨0, .refresh x.session⟩ :: rest
  kept : ∃ since earlier, w.history = since ++ x.past ∧
    x.states since = w.snapshot (.root x.store) :: earlier ∧
    ((∀ state ∈ x.states since, k.Fits state) → ∃ d state?, w.depot? = some d ∧ k.Holds d state? ∧
      (late = false → earlier ≠ [] → state? = some (w.snapshot (.root x.store))))

namespace Tracks

/-- What leaves the state of the session and the first one to listen to it makes no difference. -/
theorem of_calm (h : k.Tracks x late w) (hheeds : w'.Heeds k) (hhome : w'.home = w.home)
    (hsnapshot : w'.snapshot (.root x.store) = w.snapshot (.root x.store))
    (hlistener : ∃ st rest, w'.stores[x.store]? = some st ∧
      st.listeners = ⟨0, .refresh x.session⟩ :: rest)
    (hcalm : ∃ since, w'.history = since ++ w.history ∧
      since.filterMap (Moment.state? x.store) = [])
    (hcarries : k.Carries w w') : k.Tracks x late w' := by
  obtain ⟨since, earlier, hhistory, hstates, hkept⟩ := h.kept
  obtain ⟨since', hhistory', hnone⟩ := hcalm
  have hsame : x.states (since' ++ since) = x.states since := by
    rw [Watch.states, List.filterMap_append, hnone, List.nil_append, Watch.states]
  refine ⟨hheeds, hhome.symm ▸ h.home, hlistener, since' ++ since, earlier, ?_, ?_, fun hfits => ?_⟩
  · rw [hhistory', hhistory, List.append_assoc]
  · rw [hsame, hstates, hsnapshot]
  · rw [hsame] at hfits
    obtain ⟨d, state?, hd, hholds, hlatest⟩ := hkept hfits
    obtain ⟨d', hd', hholds'⟩ := hcarries d state? hd hholds
    exact ⟨d', state?, hd', hholds', hsnapshot.symm ▸ hlatest⟩

/-- Where the rules stay and nothing is written, the session is kept track of as before. -/
theorem retains (h : k.Tracks x late w) (hr : w.Retains w') (hcarries : k.Carries w w') :
    k.Tracks x late w' :=
  h.of_calm (h.heeds.retains hr) hr.home (Watch.snapshot_eq (by rw [hr.stores]))
    (hr.stores.symm ▸ h.listener) (hr.calm.imp fun _ hc => ⟨hc.1, hc.2 _⟩) hcarries

theorem report (h : k.Tracks x late w) {sink : Diagnostic → σ → σ} {d : Diagnostic}
    (hsink : k.Spares (sink d)) : k.Tracks x late (w.report sink d) :=
  h.retains (w.retains_report sink d) (carries_report hsink)

theorem emit (h : k.Tracks x late w) (d : Diagnostic) : k.Tracks x late (w.emit d) :=
  h.report (h.heeds.sink d)

theorem record (h : k.Tracks x late w) {m : Moment} (hm : ∀ store, m.state? store = none) :
    k.Tracks x late (w.record m) :=
  h.retains (w.retains_record hm) (carries_of_eq rfl)

/-- What changes a store makes no difference, as long as it leaves the state of the session and the
first one to listen to it. -/
theorem modifyStore (h : k.Tracks x late w) {store : StoreId} {f : Store σ → Store σ}
    (hself : store = x.store → ∀ st, (f st).value = st.value ∧
      ∀ l rest, st.listeners = l :: rest → l.id = 0 → ∃ rest', (f st).listeners = l :: rest')
    (hf : ∀ st : Store σ, st.Heeds k → (f st).Heeds k) :
    k.Tracks x late (w.modifyStore store f) := by
  obtain ⟨st, rest, hst, hlisteners⟩ := h.listener
  have hstore : (w.modifyStore store f).stores[x.store]? =
      some (if store = x.store then f st else st) := Watch.getElem?_modifyStore hst f
  have hheeds := h.heeds
  refine h.of_calm ⟨hheeds.storageKey, hheeds.directives, hheeds.handlers,
    forall_mem_modify hheeds.stores store hf, hheeds.sink, hheeds.log⟩ rfl ?_ ?_ ⟨[], rfl, rfl⟩
    (carries_of_eq rfl)
  · rw [Watch.snapshot_root, Watch.snapshot_root, World.state?, World.state?, hstore, hst]
    split
    · next he => rw [Option.map_some, Option.map_some, (hself he st).1]
    · rfl
  · rw [hstore]
    split
    · next he =>
      obtain ⟨rest', hrest'⟩ := (hself he st).2 _ rest hlisteners rfl
      exact ⟨_, rest', rfl, hrest'⟩
    · exact ⟨st, rest, rfl, hlisteners⟩

/-- A further store is none of the session's business. -/
theorem addStore (h : k.Tracks x late w) (state : State) {sink : Diagnostic → σ → σ}
    (hsink : ∀ d, k.Spares (sink d)) : k.Tracks x late (w.addStore state sink).1 := by
  obtain ⟨st, rest, hst, hlisteners⟩ := h.listener
  have hheeds := h.heeds
  have hkept : (w.addStore state sink).1.stores[x.store]? = w.stores[x.store]? :=
    List.getElem?_append_left (List.getElem?_eq_some_iff.1 hst).1
  refine h.of_calm ⟨hheeds.storageKey, hheeds.directives, hheeds.handlers, ?_, hheeds.sink,
    hheeds.log⟩ rfl (Watch.snapshot_eq hkept) (hkept.symm ▸ ⟨st, rest, hst, hlisteners⟩)
    ⟨[], rfl, rfl⟩ (carries_of_eq rfl)
  exact List.forall_mem_append.2 ⟨hheeds.stores,
    List.forall_mem_singleton.2 ⟨List.forall_mem_nil _, List.forall_mem_nil _, hsink⟩⟩

/-- A write makes the storage late if it is to the store of the session, and no difference
otherwise. -/
theorem changed (h : k.Tracks x false w) (store : StoreId) (v : OrderedValue) :
    k.Tracks x (decide (store = x.store)) (w.change store v) := by
  obtain ⟨st, rest, hst, hlisteners⟩ := h.listener
  have hheeds := h.heeds
  have hheeds' : (w.change store v).Heeds k := ⟨hheeds.storageKey, hheeds.directives,
    hheeds.handlers, forall_mem_modify hheeds.stores store fun st hst =>
      ⟨hst.listeners, hst.middleware, hst.sink⟩, hheeds.sink, hheeds.log⟩
  have hstore : (w.change store v).stores[x.store]? =
      some (if store = x.store then { st with value := v } else st) :=
    Watch.getElem?_modifyStore hst _
  have hlistener : ∃ st rest, (w.change store v).stores[x.store]? = some st ∧
      st.listeners = ⟨0, .refresh x.session⟩ :: rest := by
    refine ⟨_, rest, hstore, ?_⟩
    split <;> exact hlisteners
  by_cases he : store = x.store
  · have hsnapshot : (w.change store v).snapshot (.root x.store) = v.1.fields?.getD [] := by
      rw [Watch.snapshot_root, World.state?, hstore, if_pos he]
      rfl
    obtain ⟨since, earlier, hhistory, hstates, hkept⟩ := h.kept
    have hstates' : x.states (.changed store v :: since) =
        v.1.fields?.getD [] :: x.states since := by
      rw [Watch.states, Watch.states, List.filterMap_cons, Moment.state?, if_pos he]
      rfl
    rw [decide_eq_true he]
    refine ⟨hheeds', h.home, hlistener, .changed store v :: since, x.states since, ?_, ?_,
      fun hfits => ?_⟩
    · rw [List.cons_append, ← hhistory]
      rfl
    · rw [hstates', hsnapshot]
    · rw [hstates', List.forall_mem_cons] at hfits
      obtain ⟨d, state?, hd, hholds, -⟩ := hkept hfits.2
      exact ⟨d, state?, hd, hholds, fun hlate => Bool.noConfusion hlate⟩
  · rw [decide_eq_false he]
    refine h.of_calm hheeds' rfl (Watch.snapshot_eq ?_) hlistener
      ⟨[.changed store v], rfl, ?_⟩ (carries_of_eq rfl)
    · rw [hstore, if_neg he, hst]
    · rw [List.filterMap_cons, Moment.state?, if_neg he]
      rfl

end Tracks

end Keeper

end LiveMarkup
