import LiveMarkup.Proofs.Engine.Rendering

/-!
# Keeping track of a session

A session is `Watch`ed from some moment on. It is kept track of (`Watch.Tracks`) if it shows what
the latest state since then stands for that stands for anything, and if it is still told of changes
before everybody else. Between a change of its state and its refresh it is `late`: it shows what the
states before the change stand for.

* A refresh of the session makes up for that (`Tracks.renews`), and a refresh of another session
  makes no difference (`Tracks.redrawn`).
* A write makes the session late, unless it is to another store (`Tracks.changed`).
* What changes the listeners of a store makes no difference (`Tracks.modifyStore`).
-/

namespace LiveMarkup

variable [Html.Tokenizer] {σ : Type}

/-- What is fixed about a session while it is used. -/
structure Watch where
  session : SessionId
  store : StoreId
  template : String
  settings : Template.Settings
  /-- What happened before. -/
  past : List Moment
  /-- The state of the session at the beginning. -/
  first : Fields

namespace Watch

/-- The tree that the template stands for in a state. -/
def rendering? (k : Watch) (state : Fields) : Option (Tree NodeId) :=
  Dom.firstTree? (Template.compile k.settings k.template.toList state).text

/-- The states of the session, the latest first. -/
def states (k : Watch) (since : List Moment) : List Fields :=
  since.filterMap (Moment.state? k.store) ++ [k.first]

/-- The session shows what the first of the states stands for that stands for anything. -/
def Displays (k : Watch) (w : World σ) (states : List Fields) : Prop :=
  match states.findSome? k.rendering? with
  | some t => ∃ made, w.Shows k.session made ∧ made.Alike t
  | none => (w.session? k.session).bind Session.shown = none

/-- The session shows what it has to, unless it is late, and will be told of changes first. -/
structure Tracks (k : Watch) (late : Bool) (w : World σ) : Prop where
  orderly : w.Orderly
  settings : w.engine.settings = k.settings
  session : ∃ session, w.session? k.session = some session ∧ session.store = k.store ∧
    session.template = k.template
  listener : ∃ store rest, w.stores[k.store]? = some store ∧
    store.listeners = ⟨0, .refresh k.session⟩ :: rest
  shows : ∃ since earlier, w.history = since ++ k.past ∧
    k.states since = w.snapshot (.root k.store) :: earlier ∧
    k.Displays w (if late then earlier else w.snapshot (.root k.store) :: earlier)

variable {k : Watch} {late : Bool} {w w' : World σ} {s : SessionId} {session : Session}
  {old? new? : Option (Tree NodeId)} {states : List Fields}

omit [Html.Tokenizer] in
theorem snapshot_root (w : World σ) (store : StoreId) :
    w.snapshot (.root store) = ((w.state? store).bind fun v => v.1.fields?).getD [] := by
  change (((w.state? store).bind fun v => v.1.resolve? []).bind Value.fields?).getD [] = _
  cases w.state? store <;> rfl

omit [Html.Tokenizer] in
theorem snapshot_eq {store : StoreId} (h : w'.stores[store]? = w.stores[store]?) :
    w'.snapshot (.root store) = w.snapshot (.root store) := by
  rw [snapshot_root, snapshot_root, World.state?, World.state?, h]

/-! ## What makes no difference -/

theorem Displays.imp (h : k.Displays w states)
    (hself : w'.session? k.session = w.session? k.session)
    (hshows : ∀ t, w.Shows k.session t → w'.Shows k.session t) : k.Displays w' states := by
  rw [Displays] at h ⊢
  split
  · next t ht =>
    rw [ht] at h
    obtain ⟨made, hmade, halike⟩ := h
    exact ⟨made, hshows made hmade, halike⟩
  · next hn =>
    rw [hn] at h
    rw [hself, h]

theorem Displays.congr (h : k.Displays w states) (hv : w.SameView w') : k.Displays w' states :=
  h.imp (hv.session? _) fun _ ht => hv.shows_iff.2 ht

omit [Html.Tokenizer] in
theorem states_append {since since' : List Moment}
    (h : ∀ store, since'.filterMap (Moment.state? store) = []) :
    k.states (since' ++ since) = k.states since := by
  rw [states, List.filterMap_append, h, List.nil_append, states]

/-- What leaves the session, its store and what it shows as they are makes no difference. -/
theorem Tracks.of_calm (h : k.Tracks late w) (horderly : w'.Orderly)
    (hsettings : w'.engine.settings = w.engine.settings) (hcalm : w.Calm w')
    (hstore : w'.stores[k.store]? = w.stores[k.store]?)
    (hself : w'.session? k.session = w.session? k.session)
    (hshows : ∀ t, w.Shows k.session t → w'.Shows k.session t) : k.Tracks late w' := by
  obtain ⟨since, earlier, hhistory, hstates, hdisplays⟩ := h.shows
  obtain ⟨since', hhistory', hnone⟩ := hcalm
  refine ⟨horderly, hsettings.trans h.settings, hself.symm ▸ h.session, hstore.symm ▸ h.listener,
    since' ++ since, earlier, by rw [hhistory', hhistory, List.append_assoc], ?_, ?_⟩
  · rw [states_append hnone, hstates, snapshot_eq hstore]
  · rw [snapshot_eq hstore]
    exact hdisplays.imp hself hshows

theorem Tracks.of_agrees (h : k.Tracks late w) (ha : w.Agrees w') : k.Tracks late w' :=
  h.of_calm (h.orderly.of_agrees ha) ha.settings ha.calm (by rw [ha.stores]) (ha.session? _)
    fun _ ht => ha.shows_iff.2 ht

/-- A refresh of another session makes no difference. -/
theorem Tracks.redrawn (h : k.Tracks late w) (hs : w.session? s = some session)
    (hne : k.session ≠ s) (hold : ∀ u, old? = some u → w.Shows s u)
    (hr : w.Redrawn w' s session old? new?) :
    k.Tracks late w' := by
  refine h.of_calm (h.orderly.redraw hs hold hr) hr.settings hr.calm (by rw [hr.stores]) ?_
    fun _ ht => hr.shows_other h.orderly hold hne ht
  rw [hr.session?, if_neg hne]

theorem Tracks.addStore (h : k.Tracks late w) (state : State) (sink : Diagnostic → σ → σ) :
    k.Tracks late (w.addStore state sink).1 := by
  obtain ⟨st, rest, hst, -⟩ := h.listener
  have hview : w.SameView (w.addStore state sink).1 := ⟨rfl, fun _ => rfl⟩
  refine h.of_calm (h.orderly.of_same ⟨rfl, rfl, rfl, rfl⟩ hview ?_ ?_) rfl
    (World.calm_of_eq rfl) ?_ rfl fun _ ht => hview.shows_iff.2 ht
  · exact List.forall_mem_append.2 ⟨h.orderly.listeners, by simp⟩
  · exact List.forall_mem_append.2 ⟨h.orderly.middleware, by simp⟩
  · exact List.getElem?_append_left (List.getElem?_eq_some_iff.1 hst).1

/-! ## Refreshing -/

/-- After a refresh, a session shows what its state stands for, or what it has shown before. -/
theorem displays_of_renews {earlier : List Fields} (hsettings : w.engine.settings = k.settings)
    (hs : w.session? k.session = some session) (hstore : session.store = k.store)
    (htemplate : session.template = k.template)
    (hearlier : k.rendering? (w.snapshot (.root k.store)) = none → k.Displays w earlier)
    (hr : Run.Renews w w' k.session session old? new?) :
    k.Displays w' (w.snapshot (.root k.store) :: earlier) := by
  have hrendering : k.rendering? (w.snapshot (.root k.store)) =
      w.engine.rendering? session.template (w.snapshot (.root session.store)) := by
    rw [rendering?, Engine.rendering?, hsettings, hstore, htemplate]
  have hself : w'.session? k.session =
      some { session with shown := new?.map Tree.label } := by rw [hr.session?, if_pos rfl]
  cases hwanted : k.rendering? (w.snapshot (.root k.store)) with
  | some t =>
    obtain ⟨made, hmade, halike⟩ := hr.alike t (hrendering ▸ hwanted)
    rw [Displays, List.findSome?_cons, hwanted]
    exact ⟨made, hr.shows_self hmade, halike⟩
  | none =>
    have hkept := hr.kept (hrendering ▸ hwanted)
    have hbefore := hearlier hwanted
    rw [Displays, List.findSome?_cons, hwanted]
    rw [Displays] at hbefore
    simp only
    split
    · next t ht =>
      rw [ht] at hbefore
      obtain ⟨made, hmade, halike⟩ := hbefore
      have hshown := hmade.shown
      rw [hs, Option.bind_some, hr.shown, Option.map_eq_some_iff] at hshown
      obtain ⟨u, hu, -⟩ := hshown
      refine ⟨made, hr.shows_self ?_, halike⟩
      rw [hkept, hu, (hr.shows u hu).eq hmade]
    · next hn =>
      rw [hn] at hbefore
      rw [hself, Option.bind_some, hkept, ← hr.shown]
      rwa [hs, Option.bind_some] at hbefore

/-- A refresh of the session makes it show what it has to. -/
theorem Tracks.renews (h : k.Tracks late w) (hs : w.session? k.session = some session)
    (hr : Run.Renews w w' k.session session old? new?) : k.Tracks false w' := by
  obtain ⟨session', hs', hstore, htemplate⟩ := h.session
  obtain rfl := Option.some.inj (hs'.symm.trans hs)
  obtain ⟨since, earlier, hhistory, hstates, hshows⟩ := h.shows
  obtain ⟨since', hhistory', hcalm⟩ := hr.calm
  have hself : w'.session? k.session =
      some { session' with shown := new?.map Tree.label } := by rw [hr.session?, if_pos rfl]
  have hearlier (hnone : k.rendering? (w.snapshot (.root k.store)) = none) :
      k.Displays w earlier := by
    cases late with
    | true => exact hshows
    | false =>
      rw [if_neg Bool.false_ne_true, Displays, List.findSome?_cons, hnone] at hshows
      exact hshows
  refine ⟨h.orderly.redraw hs hr.shows hr.toRedrawn, hr.settings.trans h.settings,
    ⟨_, hself, hstore, htemplate⟩, hr.stores.symm ▸ h.listener,
    since' ++ since, earlier, by rw [hhistory', hhistory, List.append_assoc], ?_, ?_⟩
  · rw [states_append hcalm, hstates, hr.snapshot]
  · rw [hr.snapshot, if_neg Bool.false_ne_true]
    exact displays_of_renews h.settings hs hstore htemplate hearlier hr

/-! ## Changing stores -/

omit [Html.Tokenizer] in
theorem getElem?_modifyStore {store other : StoreId} {st : Store σ}
    (h : w.stores[other]? = some st) (f : Store σ → Store σ) :
    (w.modifyStore store f).stores[other]? = some (if store = other then f st else st) := by
  rw [World.modifyStore, List.getElem?_modify, h]
  rfl

/-- What changes a store makes no difference, as long as it leaves the state of the session and the
first one to listen to it. -/
theorem Tracks.modifyStore (h : k.Tracks late w) {store : StoreId} {f : Store σ → Store σ}
    (hself : store = k.store → ∀ st, (f st).value = st.value ∧
      ∀ l rest, st.listeners = l :: rest → l.id = 0 → ∃ rest', (f st).listeners = l :: rest')
    (hl : ∀ st : Store σ, (∀ l ∈ st.listeners, l.callback.Quiet) →
      ∀ l ∈ (f st).listeners, l.callback.Quiet)
    (hm : ∀ st : Store σ, (∀ layer ∈ st.middleware, ∀ next old, (layer.script next old).Quiet) →
      ∀ layer ∈ (f st).middleware, ∀ next old, (layer.script next old).Quiet) :
    k.Tracks late (w.modifyStore store f) := by
  obtain ⟨st, rest, hst, hlisteners⟩ := h.listener
  have hstore : (w.modifyStore store f).stores[k.store]? =
      some (if store = k.store then f st else st) := getElem?_modifyStore hst f
  have hsnapshot :
      (w.modifyStore store f).snapshot (.root k.store) = w.snapshot (.root k.store) := by
    rw [snapshot_root, snapshot_root, World.state?, World.state?, hstore, hst]
    split
    · next he => rw [Option.map_some, Option.map_some, (hself he st).1]
    · rfl
  refine ⟨h.orderly.modifyStore store hl hm, h.settings, h.session, ?_, ?_⟩
  · rw [hstore]
    split
    · next he =>
      obtain ⟨rest', hrest'⟩ := (hself he st).2 _ rest hlisteners rfl
      exact ⟨_, rest', rfl, hrest'⟩
    · exact ⟨st, rest, rfl, hlisteners⟩
  · rw [hsnapshot]
    obtain ⟨since, earlier, hhistory, hstates, hshows⟩ := h.shows
    exact ⟨since, earlier, hhistory, hstates, hshows.congr ⟨rfl, fun _ => rfl⟩⟩

/-- A write makes the session late if it is to its store, and no difference otherwise. -/
theorem Tracks.changed (h : k.Tracks false w) (store : StoreId) (v : OrderedValue) :
    k.Tracks (decide (store = k.store))
      ((w.modifyStore store fun st => { st with value := v }).record (.changed store v)) := by
  obtain ⟨st, rest, hst, hlisteners⟩ := h.listener
  obtain ⟨since, earlier, hhistory, hstates, hshows⟩ := h.shows
  have horderly := h.orderly.modifyStore store (f := fun st => { st with value := v })
    (fun _ hl => hl) (fun _ hm => hm)
  have hview : w.SameView
      ((w.modifyStore store fun st => { st with value := v }).record (.changed store v)) :=
    ⟨rfl, fun _ => rfl⟩
  have hstore : ((w.modifyStore store fun st => { st with value := v }).record
      (.changed store v)).stores[k.store]? =
        some (if store = k.store then { st with value := v } else st) := getElem?_modifyStore hst _
  refine ⟨horderly.of_same ⟨rfl, rfl, rfl, rfl⟩ ⟨rfl, fun _ => rfl⟩ horderly.listeners
    horderly.middleware, h.settings, h.session, ?_, ?_⟩
  · refine ⟨_, rest, hstore, ?_⟩
    split <;> exact hlisteners
  by_cases he : store = k.store
  · have hsnapshot : ((w.modifyStore store fun st => { st with value := v }).record
        (.changed store v)).snapshot (.root k.store) = v.1.fields?.getD [] := by
      rw [snapshot_root, World.state?, hstore, if_pos he]
      rfl
    rw [hsnapshot, decide_eq_true he]
    refine ⟨.changed store v :: since, w.snapshot (.root k.store) :: earlier, ?_, ?_, ?_⟩
    · rw [List.cons_append, ← hhistory]
      rfl
    · rw [← hstates, states, states, List.filterMap_cons, Moment.state?, if_pos he]
      rfl
    · exact hshows.congr hview
  · have hsnapshot : ((w.modifyStore store fun st => { st with value := v }).record
        (.changed store v)).snapshot (.root k.store) = w.snapshot (.root k.store) :=
      snapshot_eq (by rw [hstore, if_neg he, hst])
    rw [hsnapshot, decide_eq_false he]
    refine ⟨.changed store v :: since, earlier, ?_, ?_, hshows.congr hview⟩
    · rw [List.cons_append, ← hhistory]
      rfl
    · rw [← hstates, states, states, List.filterMap_cons, Moment.state?, if_neg he]

end Watch

end LiveMarkup
