import LiveMarkup.Engine.Execute
import LiveMarkup.Proofs.Dom.Showing

/-!
# Worlds in order

In an orderly world every session that shows something shows a tree of its own (`World.Shows`),
nothing is half done, and whatever may be called is quiet (`Program.Quiet`). An operation changes
the engine, the stores, or the nodes and sessions; what it leaves alone is said by
`World.SameEngine`, `World.SameStores` and `World.SameView`. A world stays in order

* if only stores change, as long as what they call is quiet (`Orderly.of_same`),
* if one session shows something else in place of what it showed (`Orderly.redraw`).
-/

namespace LiveMarkup

variable {σ : Type}

theorem forall_mem_modify {α : Type} {p : α → Prop} {l : List α} (h : ∀ a ∈ l, p a) (i : Nat)
    {f : α → α} (hf : ∀ a, p a → p (f a)) : ∀ a ∈ l.modify i f, p a := by
  intro a ha
  obtain ⟨j, hj⟩ := List.mem_iff_getElem?.1 ha
  rw [List.getElem?_modify, Option.map_eq_map, Option.map_eq_some_iff] at hj
  obtain ⟨b, hb, rfl⟩ := hj
  have hp := h b (List.mem_of_getElem? hb)
  split
  · exact hf b hp
  · exact hp

/-! ## Quiet programs -/

/-- The program reads, writes and listens. It registers no directive, has no session rendered from
the start, and ends no subscription that came first on its store, as that of a session does. -/
def Program.Quiet : Program σ → Prop
  | .done => True
  | .ask next => ∀ host, (next host).Quiet
  | .tell _ next => next.Quiet
  | .value _ next => ∀ v, (next v).Quiet
  | .set _ _ _ next => ∀ changed, (next changed).Quiet
  | .setIndex _ _ _ next => ∀ changed, (next changed).Quiet
  | .remove _ _ next => ∀ old, (next old).Quiet
  | .merge _ _ next => ∀ changed, (next changed).Quiet
  | .subscribe _ listener next => listener.Quiet ∧ ∀ id, (next id).Quiet
  | .unsubscribe _ id next => id ≠ 0 ∧ ∀ ended, (next ended).Quiet
  | .addDirective _ _ _ _ => False
  | .create _ next => ∀ store, (next store).Quiet
  | .element _ next => ∀ root, (next root).Quiet
  | .outerHtml _ next => ∀ markup, (next markup).Quiet
  | .render _ _ => False

/-- What is called is a quiet program, or a session's refresh. -/
def Callback.Quiet : Callback σ → Prop
  | .script p => p.Quiet
  | .refresh _ => True

/-- The state that a store takes at a moment. -/
def Moment.state? (store : StoreId) : Moment → Option Fields
  | .changed store' v => if store' = store then some (v.1.fields?.getD []) else none
  | _ => none

/-- What templates are compiled with. -/
def Engine.settings (engine : Engine σ) : Template.Settings where
  directives := engine.directives.map fun d => ⟨d.1, d.2.expand⟩
  defaultValue := engine.config.defaultValue.toList

/-- The tree that a template stands for in a state. -/
def Engine.rendering? [Html.Tokenizer] (engine : Engine σ) (template : String) (state : Fields) :
    Option (Tree NodeId) :=
  Dom.firstTree? (Template.compile engine.settings template.toList state).text

namespace World

/-! ## What a session shows -/

/-- A session shows a tree, which nothing else holds. -/
structure Shows (w : World σ) (s : SessionId) (t : Tree NodeId) : Prop where
  shown : (w.session? s).bind Session.shown = some t.label
  hosts : w.engine.dom.Hosts none t
  nodup : t.labels.Nodup
  wellFormed : t.WellFormed

/-- The world is in order: the nodes can be reached, no session is being refreshed, directives do
nothing but expand, and sessions that show something show trees without common nodes. -/
structure Orderly (w : World σ) : Prop where
  sound : w.engine.dom.Sound
  unlocked : w.engine.isLocked = false
  inert : ∀ d ∈ w.engine.directives, ∀ arguments content state,
    d.2.script arguments content state = .done
  listeners : ∀ store ∈ w.stores, ∀ l ∈ store.listeners, l.callback.Quiet
  middleware : ∀ store ∈ w.stores, ∀ layer ∈ store.middleware, ∀ next old,
    (layer.script next old).Quiet
  idle : ∀ s session, w.session? s = some session → session.isRefreshing = false
  known : ∀ s session, w.session? s = some session → s < w.nextSession
  shows : ∀ s root, (w.session? s).bind Session.shown = some root →
    ∃ t, t.label = root ∧ w.Shows s t
  apart : ∀ s s' t t', s ≠ s' → w.Shows s t → w.Shows s' t' → ∀ id ∈ t.labels, id ∉ t'.labels

/-! ## What an operation leaves alone -/

/-- What decides how templates are compiled and shown is the same. -/
structure SameEngine (w w' : World σ) : Prop where
  isLocked : w'.engine.isLocked = w.engine.isLocked
  directives : w'.engine.directives = w.engine.directives
  config : w'.engine.config = w.engine.config
  nextSession : w'.nextSession = w.nextSession

/-- No state was written. -/
def Calm (w w' : World σ) : Prop :=
  ∃ since, w'.history = since ++ w.history ∧ ∀ store, since.filterMap (Moment.state? store) = []

/-- The stores are the same, and no state was written. -/
structure SameStores (w w' : World σ) : Prop where
  stores : w'.stores = w.stores
  calm : w.Calm w'

/-- The nodes are the same, and so are the sessions. -/
structure SameView (w w' : World σ) : Prop where
  dom : w'.engine.dom = w.engine.dom
  session? : ∀ s, w'.session? s = w.session? s

/-- Nothing has happened that matters to sessions. -/
structure Agrees (w w' : World σ) : Prop extends
  SameEngine w w', SameStores w w', SameView w w'

variable {w w' w'' : World σ} {s : SessionId} {t : Tree NodeId} {session : Session}

theorem SameEngine.trans (h : SameEngine w w') (h' : SameEngine w' w'') : SameEngine w w'' :=
  ⟨h'.isLocked.trans h.isLocked, h'.directives.trans h.directives, h'.config.trans h.config,
    h'.nextSession.trans h.nextSession⟩

theorem SameEngine.settings (h : SameEngine w w') : w'.engine.settings = w.engine.settings := by
  rw [Engine.settings, Engine.settings, h.directives, h.config]

theorem calm_of_eq (h : w'.history = w.history) : Calm w w' := ⟨[], h, fun _ => rfl⟩

theorem Calm.trans (h : Calm w w') (h' : Calm w' w'') : Calm w w'' := by
  obtain ⟨since, hs, hnone⟩ := h
  obtain ⟨since', hs', hnone'⟩ := h'
  refine ⟨since' ++ since, by rw [hs', hs, List.append_assoc], fun store => ?_⟩
  rw [List.filterMap_append, hnone, hnone', List.append_nil]

theorem SameStores.trans (h : SameStores w w') (h' : SameStores w' w'') : SameStores w w'' :=
  ⟨h'.stores.trans h.stores, h.calm.trans h'.calm⟩

theorem SameStores.snapshot (h : SameStores w w') (handle : Handle) :
    w'.snapshot handle = w.snapshot handle := by
  rw [World.snapshot, World.value?, World.state?, h.stores]
  rfl

theorem SameView.trans (h : SameView w w') (h' : SameView w' w'') : SameView w w'' :=
  ⟨h'.dom.trans h.dom, fun s => (h'.session? s).trans (h.session? s)⟩

theorem Agrees.refl (w : World σ) : w.Agrees w :=
  ⟨⟨rfl, rfl, rfl, rfl⟩, ⟨rfl, calm_of_eq rfl⟩, ⟨rfl, fun _ => rfl⟩⟩

theorem Agrees.trans (h : Agrees w w') (h' : Agrees w' w'') : Agrees w w'' :=
  ⟨h.toSameEngine.trans h'.toSameEngine, h.toSameStores.trans h'.toSameStores,
    h.toSameView.trans h'.toSameView⟩

/-- The world with one moment more. -/
theorem sameStores_record (w : World σ) {m : Moment} (h : ∀ store, m.state? store = none) :
    SameStores w (w.record m) :=
  ⟨rfl, [m], rfl, fun store => by simp [h store]⟩

theorem agrees_record (w : World σ) {m : Moment} (h : ∀ store, m.state? store = none) :
    Agrees w (w.record m) :=
  ⟨⟨rfl, rfl, rfl, rfl⟩, sameStores_record w h, ⟨rfl, fun _ => rfl⟩⟩

theorem agrees_report (w : World σ) (sink : Diagnostic → σ → σ) (d : Diagnostic) :
    Agrees w (w.report sink d) :=
  ⟨⟨rfl, rfl, rfl, rfl⟩, ⟨rfl, [.reported d], rfl, fun _ => rfl⟩, ⟨rfl, fun _ => rfl⟩⟩

theorem session?_modifySession (w : World σ) (s other : SessionId) (f : Session → Session) :
    (w.modifySession s f).session? other =
      if other = s then (w.session? s).map f else w.session? other := by
  rw [modifySession]
  split
  · next session hs =>
    rw [hs, session?, OrderedMap.find?_put]
    simp only [eq_comm, Option.map_some]
    rfl
  · next hs =>
    split
    · next h => rw [h, hs, Option.map_none]
    · rfl

/-- One session is changed, and the nodes are others. -/
structure Turns (w w' : World σ) (s : SessionId) (f : Session → Session) (dom : Dom) : Prop extends
  SameEngine w w', SameStores w w' where
  dom : w'.engine.dom = dom
  session? : ∀ other, w'.session? other =
    if other = s then (w.session? s).map f else w.session? other

theorem Turns.trans {f g : Session → Session} {dom dom' : Dom} (h : Turns w w' s f dom)
    (h' : Turns w' w'' s g dom') : Turns w w'' s (g ∘ f) dom' := by
  refine ⟨h.toSameEngine.trans h'.toSameEngine, h.toSameStores.trans h'.toSameStores, h'.dom,
    fun other => ?_⟩
  rw [h'.session?, h.session?, if_pos rfl, h.session?, Option.map_map]
  split <;> rfl

theorem Agrees.turns (h : Agrees w w') (s : SessionId) : Turns w w' s id w.engine.dom := by
  refine ⟨h.toSameEngine, h.toSameStores, h.dom, fun other => ?_⟩
  rw [h.session?, Option.map_id]
  split
  · next he => rw [he, id]
  · rfl

theorem Turns.record {f : Session → Session} {dom : Dom} (h : Turns w w' s f dom) {m : Moment}
    (hm : ∀ store, m.state? store = none) : Turns w (w'.record m) s f dom := by
  have hrecord := h.trans ((agrees_record w' hm).turns s)
  rwa [h.dom] at hrecord

theorem turns_modifySession (w : World σ) (s : SessionId) (f : Session → Session) :
    Turns w (w.modifySession s f) s f w.engine.dom := by
  have hsession := fun other => w.session?_modifySession s other f
  rw [modifySession] at hsession ⊢
  split
  · next hs =>
    rw [hs] at hsession
    exact ⟨⟨rfl, rfl, rfl, rfl⟩, ⟨rfl, calm_of_eq rfl⟩, rfl, by rwa [hs]⟩
  · next hs =>
    rw [hs] at hsession
    exact ⟨⟨rfl, rfl, rfl, rfl⟩, ⟨rfl, calm_of_eq rfl⟩, rfl, by rwa [hs]⟩

/-! ## Staying in order -/

theorem Orderly.exists_shown (h : w.Orderly) (hs : w.session? s = some session) :
    ∃ old? : Option (Tree NodeId), session.shown = old?.map Tree.label ∧
      ∀ t, old? = some t → w.Shows s t := by
  cases hshown : session.shown with
  | none => exact ⟨none, rfl, nofun⟩
  | some root =>
    obtain ⟨t, hlabel, ht⟩ := h.shows s root (by rw [hs, Option.bind_some, hshown])
    refine ⟨some t, by rw [Option.map_some, hlabel], ?_⟩
    rintro _ ⟨⟩
    exact ht

theorem SameView.shows_iff (h : SameView w w') : w'.Shows s t ↔ w.Shows s t := by
  constructor
  · intro ⟨hs, hh, hn, hw⟩
    exact ⟨h.session? s ▸ hs, h.dom ▸ hh, hn, hw⟩
  · intro ⟨hs, hh, hn, hw⟩
    exact ⟨(h.session? s).symm ▸ hs, h.dom.symm ▸ hh, hn, hw⟩

theorem Shows.eq (h : w.Shows s t) {u : Tree NodeId} (h' : w.Shows s u) : t = u :=
  h.hosts.eq_of_label h'.hosts (Option.some.inj (h.shown.symm.trans h'.shown))

/-- A world stays in order if nodes and sessions stay as they are and what is called is quiet. -/
theorem Orderly.of_view (h : w.Orderly) (hv : SameView w w')
    (hlocked : w'.engine.isLocked = w.engine.isLocked) (hnext : w'.nextSession = w.nextSession)
    (hinert : ∀ d ∈ w'.engine.directives, ∀ arguments content state,
      d.2.script arguments content state = .done)
    (hl : ∀ store ∈ w'.stores, ∀ l ∈ store.listeners, l.callback.Quiet)
    (hm : ∀ store ∈ w'.stores, ∀ layer ∈ store.middleware, ∀ next old,
      (layer.script next old).Quiet) : w'.Orderly where
  sound := hv.dom.symm ▸ h.sound
  unlocked := hlocked.trans h.unlocked
  inert := hinert
  listeners := hl
  middleware := hm
  idle s session hs := h.idle s session (hv.session? s ▸ hs)
  known s session hs := hnext.symm ▸ h.known s session (hv.session? s ▸ hs)
  shows s root hs := by
    obtain ⟨t, ht, hshows⟩ := h.shows s root (hv.session? s ▸ hs)
    exact ⟨t, ht, hv.shows_iff.2 hshows⟩
  apart s s' t t' hne ht ht' := h.apart s s' t t' hne (hv.shows_iff.1 ht) (hv.shows_iff.1 ht')

/-- A world stays in order as long as what the stores call is quiet. -/
theorem Orderly.of_same (h : w.Orderly) (he : SameEngine w w') (hv : SameView w w')
    (hl : ∀ store ∈ w'.stores, ∀ l ∈ store.listeners, l.callback.Quiet)
    (hm : ∀ store ∈ w'.stores, ∀ layer ∈ store.middleware, ∀ next old,
      (layer.script next old).Quiet) : w'.Orderly :=
  h.of_view hv he.isLocked he.nextSession (he.directives.symm ▸ h.inert) hl hm

theorem Orderly.of_agrees (h : w.Orderly) (ha : Agrees w w') : w'.Orderly :=
  h.of_same ha.toSameEngine ha.toSameView (ha.stores.symm ▸ h.listeners)
    (ha.stores.symm ▸ h.middleware)

/-- A world stays in order if one store is changed, as long as what the store calls is quiet. -/
theorem Orderly.modifyStore (h : w.Orderly) (store : StoreId) {f : Store σ → Store σ}
    (hl : ∀ st : Store σ, (∀ l ∈ st.listeners, l.callback.Quiet) →
      ∀ l ∈ (f st).listeners, l.callback.Quiet)
    (hm : ∀ st : Store σ, (∀ layer ∈ st.middleware, ∀ next old, (layer.script next old).Quiet) →
      ∀ layer ∈ (f st).middleware, ∀ next old, (layer.script next old).Quiet) :
    (w.modifyStore store f).Orderly :=
  h.of_same ⟨rfl, rfl, rfl, rfl⟩ ⟨rfl, fun _ => rfl⟩ (forall_mem_modify h.listeners store hl)
    (forall_mem_modify h.middleware store hm)

/-- One session shows something in place of what it showed. -/
structure Redrawn (w w' : World σ) (s : SessionId) (session : Session)
    (old? new? : Option (Tree NodeId)) : Prop extends SameEngine w w', SameStores w w' where
  session? : ∀ other, w'.session? other =
    if other = s then some { session with shown := new?.map Tree.label } else w.session? other
  redraws : w.engine.dom.Redraws w'.engine.dom old? new?

variable {old? new? : Option (Tree NodeId)}

theorem Redrawn.shows_self (hr : w.Redrawn w' s session old? new?) (ht : new? = some t) :
    w'.Shows s t := by
  obtain ⟨hh, hn, hw⟩ := hr.redraws.stands t ht
  refine ⟨?_, hh, hn, hw⟩
  rw [hr.session?, if_pos rfl, Option.bind_some, ht]
  rfl

/-- What other sessions show is not touched. -/
theorem Redrawn.shows_other (h : w.Orderly) (hold : ∀ u, old? = some u → w.Shows s u)
    (hr : w.Redrawn w' s session old? new?) {other : SessionId} (hne : other ≠ s)
    (ht : w.Shows other t) : w'.Shows other t := by
  refine ⟨?_, ht.hosts.congr fun id hid => ?_, ht.nodup, ht.wellFormed⟩
  · rw [hr.session?, if_neg hne, ht.shown]
  · exact hr.redraws.get? id (ht.hosts.isSome_of_mem hid) fun u hu =>
      h.apart other s t u hne ht (hold u hu) id hid

/-- A tree that another session shows now was shown before. -/
theorem Redrawn.shows_of_other (h : w.Orderly) (hold : ∀ u, old? = some u → w.Shows s u)
    (hr : w.Redrawn w' s session old? new?) {other : SessionId} (hne : other ≠ s)
    (ht : w'.Shows other t) : w.Shows other t := by
  have hshown := ht.shown
  rw [hr.session?, if_neg hne] at hshown
  obtain ⟨u, -, hu⟩ := h.shows other t.label hshown
  rwa [ht.eq (hr.shows_other h hold hne hu)]

/-- A tree that the session shows now is the new one. -/
theorem Redrawn.eq_of_shows (hr : w.Redrawn w' s session old? new?) (ht : w'.Shows s t) :
    new? = some t := by
  have hshown := ht.shown
  rw [hr.session?, if_pos rfl, Option.bind_some, Option.map_eq_some_iff] at hshown
  obtain ⟨u, hu, -⟩ := hshown
  rw [hu, ht.eq (hr.shows_self hu)]

/-- The nodes of the new tree are not those of a tree that another session shows. -/
theorem Redrawn.apart (h : w.Orderly) (hold : ∀ u, old? = some u → w.Shows s u)
    (hr : w.Redrawn w' s session old? new?) {other : SessionId} (hne : other ≠ s)
    {u : Tree NodeId} (ht : w'.Shows s t) (hu : w'.Shows other u) :
    ∀ id ∈ t.labels, id ∉ u.labels := by
  intro id hid hid'
  have hbefore := hr.shows_of_other h hold hne hu
  rcases hr.redraws.made t (hr.eq_of_shows ht) id hid with ⟨v, hv, hm⟩ | hnone
  · exact h.apart s other v u hne.symm (hold v hv) hbefore id hm hid'
  · have hsome := hbefore.hosts.isSome_of_mem hid'
    rw [hnone] at hsome
    cases hsome

theorem Orderly.redraw (h : w.Orderly) (hs : w.session? s = some session)
    (hold : ∀ u, old? = some u → w.Shows s u) (hr : w.Redrawn w' s session old? new?) :
    w'.Orderly where
  sound := hr.redraws.sound
  unlocked := hr.isLocked.trans h.unlocked
  inert := hr.directives.symm ▸ h.inert
  listeners := hr.stores.symm ▸ h.listeners
  middleware := hr.stores.symm ▸ h.middleware
  idle other session' hs' := by
    rw [hr.session?] at hs'
    split at hs'
    · obtain rfl := Option.some.inj hs'
      exact h.idle s session hs
    · exact h.idle other session' hs'
  known other session' hs' := by
    rw [hr.nextSession]
    rw [hr.session?] at hs'
    split at hs'
    · next he => exact he ▸ h.known s session hs
    · exact h.known other session' hs'
  shows other root hroot := by
    by_cases hne : other = s
    · subst hne
      rw [hr.session?, if_pos rfl, Option.bind_some, Option.map_eq_some_iff] at hroot
      obtain ⟨t, ht, hlabel⟩ := hroot
      exact ⟨t, hlabel, hr.shows_self ht⟩
    · rw [hr.session?, if_neg hne] at hroot
      obtain ⟨t, hlabel, ht⟩ := h.shows other root hroot
      exact ⟨t, hlabel, hr.shows_other h hold hne ht⟩
  apart s₁ s₂ t u hne ht hu := by
    by_cases h₁ : s₁ = s
    · subst h₁
      exact hr.apart h hold hne.symm ht hu
    · by_cases h₂ : s₂ = s
      · subst h₂
        exact fun id hid hid' => hr.apart h hold hne hu ht id hid' hid
      · exact h.apart s₁ s₂ t u hne (hr.shows_of_other h hold h₁ ht)
          (hr.shows_of_other h hold h₂ hu)

end World

end LiveMarkup
