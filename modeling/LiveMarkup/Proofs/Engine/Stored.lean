import LiveMarkup.Proofs.Engine.Opening
import LiveMarkup.Proofs.Engine.Saving
import Mathlib.Logic.Relation

/-!
# What is stored is the latest state

A caller opens a session of an engine that keeps states, and then does whatever he likes
(`World.Uses`). As soon as the state of the session has changed, what is stored is its state after
every operation, and a session that is opened next starts in it, whatever state it is given
(`World.Heeds.stores_latest`).
-/

namespace LiveMarkup

open Relation

variable {σ α β : Type}

/-! ## Opening a session -/

namespace World

/-- The world right after a session was opened, before it is mounted. -/
def opened (w : World σ) (d : Depot σ) (template : String) (state : State) : World σ :=
  let session : Session := { store := w.stores.length, template }
  { w.withDepot d with
    stores := w.stores ++ [{
      value := state.root
      listeners := [⟨0, .refresh w.nextSession⟩]
      nextId := 1
      sink := w.engine.sink }]
    -- The session is entered once more when its subscription is known.
    sessions := OrderedMap.put (OrderedMap.put w.sessions w.nextSession session) w.nextSession
      session
    nextSession := w.nextSession + 1
    history := .subscribed w.stores.length 0 :: w.history }

variable {w : World σ} {d : Depot σ} {template : String} {state : State}

theorem modifySession_eq {s : SessionId} {session : Session} (h : w.session? s = some session)
    (f : Session → Session) :
    w.modifySession s f = { w with sessions := OrderedMap.put w.sessions s (f session) } := by
  rw [modifySession, h]

theorem session?_opened (s : SessionId) : (w.opened d template state).session? s =
    if s = w.nextSession then some { store := w.stores.length, template } else w.session? s := by
  rw [session?, opened, OrderedMap.find?_put, OrderedMap.find?_put]
  simp only [eq_comm]
  split <;> rfl

theorem store_opened : (w.opened d template state).stores[w.stores.length]? = some
    { value := state.root, listeners := [⟨0, .refresh w.nextSession⟩], nextId := 1,
      sink := w.engine.sink } :=
  List.getElem?_concat_length

theorem state?_opened :
    (w.opened d template state).state? w.stores.length = some state.root := by
  rw [state?, store_opened]
  rfl

end World

namespace Run

variable {w w' : World σ}

theorem bind_eq_of_eq_some {m : Run σ α} {a : α} (h : m w = some (a, w')) (f : α → Run σ β) :
    (m >>= f) w = f a w' := by
  change (m w).bind (fun x => f x.1 x.2) = _
  rw [h]
  rfl

theorem subscribe_eq {store : StoreId} {st : Store σ} (hst : w.stores[store]? = some st)
    (callback : Callback σ) : subscribe store callback w = some (st.nextId,
      (w.modifyStore store fun s => s.enlist callback).record (.subscribed store st.nextId)) := by
  unfold subscribe
  rw [bind_eq_of_eq_some (a := w) rfl, hst]
  rfl

end Run

namespace Keeper

open Run

variable {k : Keeper σ} {w : World σ} {d : Depot σ} {stored? : Option Fields}

/-- What a session is opened in: the state that the storage holds, or else the given one. -/
def initial (stored? : Option Fields) (state : State) : State :=
  (stored?.map State.ofFields).getD state

/-- A session that is opened starts in the state that the storage holds, or else in the given
one. -/
theorem exists_start_eq [Html.Tokenizer] (k : Keeper σ) (hkey : w.storageKey? = some k.key)
    (hd : w.depot? = some d) (hholds : k.Holds d stored?) (template : String) (state : State) :
    ∃ d', k.Holds d' stored? ∧ ∀ call, start call template state w = (do
      let _ ← mount call w.nextSession
      pure w.nextSession) (w.opened d' template (initial stored? state)) := by
  obtain ⟨d', hrestore, hholds'⟩ :=
    k.exists_restore (w := (w.addStore state w.engine.sink).1) hkey hd hholds
  refine ⟨d', hholds', fun call => ?_⟩
  have hgained : (w.stores ++ [({ value := (initial stored? state).root, sink := w.engine.sink } :
      Store σ)])[w.stores.length]? =
        some { value := (initial stored? state).root, sink := w.engine.sink } :=
    List.getElem?_concat_length
  -- What follows once the store has its state.
  have hlast : (do
      let s ← modifyGet fun w' : World σ => (w'.nextSession, { w' with
        sessions := OrderedMap.put w'.sessions w'.nextSession { store := w.stores.length, template }
        nextSession := w'.nextSession + 1 })
      let id ← subscribe w.stores.length (.refresh s)
      modify fun w' => w'.modifySession s fun session => { session with subscription := id }
      let _ ← mount call s
      pure s : Run σ SessionId) ({ w.withDepot d' with stores := w.stores ++ [{
        value := (initial stored? state).root, sink := w.engine.sink }] } : World σ) = (do
      let _ ← mount call w.nextSession
      pure w.nextSession) (w.opened d' template (initial stored? state)) := by
    rw [bind_eq_of_eq_some (a := w.nextSession) rfl, bind_eq_of_eq_some (subscribe_eq hgained _)]
    refine bind_eq_of_eq_some (congrArg (fun w' => some ((), w')) ?_) _
    have hfound : OrderedMap.find? (OrderedMap.put w.sessions w.nextSession
        ({ store := w.stores.length, template } : Session)) w.nextSession =
          some { store := w.stores.length, template } := by
      rw [OrderedMap.find?_put, if_pos rfl]
    refine (World.modifySession_eq (by exact hfound) _).trans ?_
    · exact congrArg (fun stores => ({ w.opened d' template (initial stored? state) with stores } :
        World σ)) (modify_append_singleton w.stores _ _)
  unfold start
  rw [bind_eq_of_eq_some (a := w.stores.length) rfl]
  refine (bind_eq_of_eq_some hrestore _).trans ?_
  cases stored? with
  | none => exact hlast
  | some stored =>
    refine (bind_eq_of_eq_some (congrArg (fun w' => some ((), w')) ?_) _).trans hlast
    exact congrArg (fun stores => ({ w.withDepot d' with stores } : World σ))
      (modify_append_singleton w.stores _ _)

/-- From its opening on, the session is kept track of. -/
theorem tracks_opened (hw : w.Heeds k) (hnone : ∀ s, w.session? s = none)
    (hholds : k.Holds d stored?) (template : String) (state : State) :
    k.Tracks ⟨w.nextSession, w.stores.length, template, w.engine.settings, w.history, state.1⟩
      false (w.opened d template state) where
  heeds := by
    refine ⟨hw.storageKey, hw.directives, hw.handlers, ?_, hw.sink, hw.log⟩
    refine List.forall_mem_append.2 ⟨hw.stores, List.forall_mem_singleton.2 ⟨?_, nofun, hw.sink⟩⟩
    exact List.forall_mem_singleton.2 trivial
  home s := by
    rw [World.home, World.session?_opened, hnone]
    split <;> rfl
  listener := ⟨_, [], World.store_opened, rfl⟩
  kept := by
    have hsnapshot : (w.opened d template state).snapshot (.root w.stores.length) = state.1 := by
      rw [Watch.snapshot_root, World.state?_opened]
      rfl
    refine ⟨[.subscribed w.stores.length 0], [], rfl, ?_, fun _ => ?_⟩
    · rw [hsnapshot]
      rfl
    · exact ⟨d, stored?, rfl, hholds, fun _ hne => absurd rfl hne⟩

end Keeper

/-! ## What a caller does -/

namespace World

/-- A caller runs a program, updates the session or has it handle an event, sets up middleware,
directives and event handlers, or takes hold of the nodes. All of it minds the storage. -/
inductive Uses [Html.Tokenizer] (k : Keeper σ) : World σ → World σ → Prop
  | execute {w w' : World σ} (depth : ℕ) (p : Program σ) (hp : p.Heeds k)
      (h : Run.execute (Run.invoke depth) p w = some ((), w')) : Uses k w w'
  | update {w w' : World σ} (depth : ℕ) (s : SessionId) (entries : State)
      (h : Run.update (Run.invoke depth) s entries w = some ((), w')) : Uses k w w'
  | dispatch {w w' : World σ} (depth : ℕ) (s : SessionId) (node : NodeId) (handled : Bool)
      (h : Run.dispatch (Run.invoke depth) s node w = some (handled, w')) : Uses k w w'
  | addMiddleware {w w' : World σ} (store : StoreId) (layer : Middleware σ)
      (hlayer : ∀ next old, (layer.script next old).Heeds k)
      (h : Run.addMiddleware store layer w = some ((), w')) : Uses k w w'
  | addDirective {w w' : World σ} (name : String) (directive : ActiveDirective σ)
      (hd : ∀ arguments content state, (directive.script arguments content state).Heeds k)
      (h : Run.addDirective name directive w = some ((), w')) : Uses k w w'
  | addHandler {w w' : World σ} (name : String) (handler : EventHandler σ)
      (hh : ∀ handle, (handler handle).Heeds k)
      (h : Run.addHandler name handler w = some ((), w')) : Uses k w w'
  | hold {w : World σ} (isLocked : Bool) :
      Uses k w (w.modifyEngine fun e => { e with isLocked })

end World

namespace Keeper

open Run

variable {k : Keeper σ} {x : Watch} {w w' : World σ} {call : Callback σ → Run σ Unit}

theorem keeps_update [Html.Tokenizer] (hc : k.Faithful x call) (s : SessionId) (entries : State) :
    Keeps (k.Tracks x false) (Run.update call s entries) := by
  unfold Run.update
  refine .of_get fun w hw => ?_
  split
  · exact .of_pure fun _ h => h ▸ hw
  · exact ((hc.upholds.merge _ entries).here hw).bind fun _ => keeps_refresh hc s

theorem keeps_dispatch (hc : k.Faithful x call) (s : SessionId) (node : NodeId) :
    Keeps (k.Tracks x false) (Run.dispatch call s node) := by
  unfold Run.dispatch
  refine .of_get fun w hw => ?_
  split
  · exact .of_pure fun _ h => h ▸ hw
  split
  · exact .of_pure fun _ h => h ▸ hw
  split
  · next handler hf =>
    have hhandler := hw.heeds.handlers _ (OrderedMap.mem_of_find? hf)
    exact ((hc.callback (.script _) (hhandler _)).here hw).bind fun _ => .of_pure fun _ h => h
  · exact ((keeps_emit _).here hw).bind fun _ => .of_pure fun _ h => h

theorem keeps_addMiddleware (store : StoreId) {layer : Middleware σ}
    (hlayer : ∀ next old, (layer.script next old).Heeds k) :
    Keeps (k.Tracks x false) (Run.addMiddleware store layer) := by
  refine .of_modify fun w hw => ?_
  refine hw.modifyStore (fun _ st => ⟨rfl, fun l rest hl _ => ⟨rest, hl⟩⟩) fun st hst => ?_
  exact ⟨hst.listeners, List.forall_mem_append.2
    ⟨hst.middleware, List.forall_mem_singleton.2 hlayer⟩, hst.sink⟩

theorem keeps_addHandler (name : String) {handler : EventHandler σ}
    (hh : ∀ handle, (handler handle).Heeds k) :
    Keeps (k.Tracks x false) (Run.addHandler name handler) := by
  refine .of_modify fun w h => ?_
  have hheeds := h.heeds
  refine h.of_calm ⟨hheeds.storageKey, hheeds.directives, fun e hmem => ?_, hheeds.stores,
    hheeds.sink, hheeds.log⟩ rfl rfl h.listener ⟨[], rfl, rfl⟩ (carries_of_eq rfl)
  rcases OrderedMap.eq_or_mem_of_mem_put hmem with rfl | hmem
  · exact hh
  · exact hheeds.handlers e hmem

/-- Whatever a caller does, the storage is kept up to date. -/
theorem Tracks.uses [Html.Tokenizer] (hw : k.Tracks x false w) (h : w.Uses k w') :
    k.Tracks x false w' := by
  have hc (depth : ℕ) : k.Faithful x (invoke depth) := faithful_invoke k x depth
  cases h with
  | execute depth p hp h => exact (hc depth).keeps_execute hp w () w' hw h
  | update depth s entries h => exact keeps_update (hc depth) s entries w () w' hw h
  | dispatch depth s node handled h => exact keeps_dispatch (hc depth) s node w handled w' hw h
  | addMiddleware store layer hlayer h => exact keeps_addMiddleware store hlayer w () w' hw h
  | addDirective name directive hd h => exact keeps_addDirective name hd w () w' hw h
  | addHandler name handler hh h => exact keeps_addHandler name hh w () w' hw h
  | hold isLocked =>
    exact hw.retains (World.retains_of_eq rfl rfl rfl rfl rfl rfl rfl (World.calm_of_eq rfl))
      (carries_of_eq rfl)

/-- However often he does so, too. -/
theorem Tracks.run [Html.Tokenizer] (hw : k.Tracks x false w)
    (h : ReflTransGen (World.Uses k) w w') : k.Tracks x false w' := by
  induction h with
  | refl => exact hw
  | tail _ hstep ih => exact ih.uses hstep

end Keeper

/-! ## What is stored -/

theorem mem_filterMap_state? {store : StoreId} {since : List Moment} {state : Fields} :
    state ∈ since.filterMap (Moment.state? store) ↔
      ∃ v, .changed store v ∈ since ∧ v.1.fields?.getD [] = state := by
  rw [List.mem_filterMap]
  constructor
  · rintro ⟨m, hm, hstate⟩
    cases m with
    | changed store' v =>
      rw [Moment.state?] at hstate
      split at hstate
      · next he => exact ⟨v, he ▸ hm, Option.some.inj hstate⟩
      · cases hstate
    | _ => cases hstate
  · rintro ⟨v, hm, rfl⟩
    exact ⟨_, hm, if_pos rfl⟩

namespace World

variable {k : Keeper σ} {w w' w₁ : World σ} {d : Depot σ} {stored? : Option Fields}
  {s : SessionId} {depth : ℕ} {template : String} {state : State}

/-- A session of an engine that keeps states is opened and used. Once its state has changed, its
state is what is stored under the key, after whatever is done with it; and a session that is opened
on that storage next, with that key, starts in the very same state. -/
theorem Heeds.stores_latest [Html.Tokenizer] (hw : w.Heeds k) (hnone : ∀ s, w.session? s = none)
    (hd : w.depot? = some d) (hholds : k.Holds d stored?)
    (hstart : Run.start (Run.invoke depth) template state w = some (s, w₁))
    (hrun : ReflTransGen (Uses k) w₁ w') :
    ∃ store since, (w'.session? s).map Session.store = some store ∧
      w'.history = since ++ w.history ∧
      ((∃ v, .changed store v ∈ since) → k.Fits (Keeper.initial stored? state).1 →
        (∀ v, .changed store v ∈ since → k.Fits (v.1.fields?.getD [])) →
        ∃ d', w'.depot? = some d' ∧
          (d'.load k.key).1 = .ok (some (w'.snapshot (.root store))) ∧
          ∀ next : World σ, next.depot? = some d' → next.storageKey? = some k.key →
            ∀ template' state', ∃ next₁,
              (∀ call, Run.start call template' state' next = (do
                let _ ← Run.mount call next.nextSession
                pure next.nextSession : Run σ SessionId) next₁) ∧
              next₁.session? next.nextSession =
                some { store := next.stores.length, template := template' } ∧
              next₁.state? next.stores.length = some (w'.stateAt (.root store)).root) := by
  obtain ⟨d₁, hholds₁, hopen⟩ := k.exists_start_eq hw.storageKey hd hholds template state
  have hmounted : Run.Ensures (k.Tracks ⟨w.nextSession, w.stores.length, template,
      w.engine.settings, w.history, (Keeper.initial stored? state).1⟩ false) (do
        let _ ← Run.mount (Run.invoke depth) w.nextSession
        pure w.nextSession) fun s w₁ => s = w.nextSession ∧ k.Tracks ⟨w.nextSession,
          w.stores.length, template, w.engine.settings, w.history,
          (Keeper.initial stored? state).1⟩ false w₁ :=
    (Keeper.keeps_render (Keeper.faithful_invoke k _ depth) _ _).bind fun _ =>
      .of_pure fun _ h => ⟨rfl, h⟩
  obtain ⟨rfl, htracks⟩ := hmounted _ s w₁ (Keeper.tracks_opened hw hnone hholds₁ template _)
    ((hopen _).symm.trans hstart)
  have hlast := htracks.run hrun
  obtain ⟨since, earlier, hhistory, hstates, hkept⟩ := hlast.kept
  refine ⟨w.stores.length, since, (hlast.home _).trans (if_pos rfl), hhistory, ?_⟩
  rintro ⟨v, hv⟩ hfirst hfits
  obtain ⟨d', state?, hd', hholds', hlatest⟩ := hkept <| by
    refine List.forall_mem_append.2 ⟨fun state hstate => ?_, List.forall_mem_singleton.2 hfirst⟩
    obtain ⟨v, hv, rfl⟩ := mem_filterMap_state?.1 hstate
    exact hfits v hv
  have hearlier : earlier ≠ [] := by
    rintro rfl
    have hchanged := mem_filterMap_state?.2 ⟨v, hv, rfl⟩
    have hlength := congrArg List.length hstates
    rw [Watch.states, List.length_append, List.length_singleton, List.length_singleton] at hlength
    rw [List.length_eq_zero_iff.1 (Nat.add_right_cancel hlength)] at hchanged
    cases hchanged
  obtain rfl := hlatest rfl hearlier
  refine ⟨d', hd', ?_, fun next hnext hkey template' state' => ?_⟩
  · obtain ⟨d₂, hload, -⟩ := k.load hholds'
    rw [hload]
  · obtain ⟨d₂, -, hopen'⟩ := k.exists_start_eq hkey hnext hholds' template' state'
    -- What is stored is in order, so the next session has it as it is.
    have hsame : Keeper.initial (some (w'.snapshot (.root w.stores.length))) state' =
        w'.stateAt (.root w.stores.length) := State.ofFields_val (w'.stateAt _)
    exact ⟨_, hopen', by rw [session?_opened, if_pos rfl], by rw [state?_opened, hsame]⟩

/-- The caller's own state is the storage. A directive and a listener write back whenever they are
called, and what is stored in the end is what all of them made of the state. -/
theorem Heeds.stores_latest_of_write_back :
    let storage : StateStorage (Option Fields) :=
      .custom (fun _ stored? => (.ok stored?, stored?)) fun _ state _ => (.ok (), some state)
    let mark (key : String) : Program (Option Fields) :=
      .set (.root 0) key (.bool true) fun _ => .done
    let w : World (Option Fields) := (World.build
      { config := { persistence := some { storageKey := "k" } }, storage? := some storage }
      (fun _ host => host) [] none).modifyEngine fun e => { e with
        directives := [("mark", ⟨fun _ content _ => content, fun _ _ _ => mark "seen"⟩)] }
    let template := "\x7b\x7b#mark it\x7d\x7d<p></p>\x7b\x7b/mark\x7d\x7d"
    let p : Program (Option Fields) := .subscribe 0 (mark "heard") fun _ =>
      .set (.root 0) "n" (.number (.int 2)) fun _ => .done
    ∃ w₁ w',
      Run.start (Run.invoke 5) template (.ofFields [("n", .number (.int 1))]) w = some (0, w₁) ∧
      Run.execute (Run.invoke 5) p w₁ = some ((), w') ∧
      (w'.snapshot (.root 0)).keys = ["heard", "n", "seen"] ∧
      ∃ d, w'.depot? = some d ∧ (d.load "k").1 = .ok (some (w'.snapshot (.root 0))) := by
  intro storage mark w template p
  let k : Keeper (Option Fields) := {
    key := "k"
    Fits _ := True
    Holds d state? := d.storage = storage ∧ d.host = state?
    load := by
      rintro ⟨_, files, _⟩ state? ⟨rfl, rfl⟩
      exact ⟨_, rfl, rfl, rfl⟩
    save := by
      rintro ⟨_, files, _⟩ state? state ⟨rfl, rfl⟩ -
      exact ⟨_, rfl, rfl, rfl⟩ }
  have hsink (d : Diagnostic) : k.Spares fun host => host := fun _ _ h => h
  have hmark (key : String) : (mark key).Heeds k := fun _ => trivial
  have hw : w.Heeds k :=
    ⟨rfl, List.forall_mem_singleton.2 fun _ _ _ => hmark _, nofun, nofun, hsink, hsink⟩
  have hp : p.Heeds k := ⟨hmark _, fun _ _ => trivial⟩
  have hrun : ∃ r ∈ (do
      let s ← Run.start (Run.invoke 5) template (.ofFields [("n", .number (.int 1))])
      Run.execute (Run.invoke 5) p
      pure s : Run (Option Fields) SessionId) w,
      r.1 = 0 ∧ (r.2.session? 0).map Session.store = some 0 ∧
        (r.2.history.any fun m => (m.value? 0).isSome) = true ∧
        (r.2.snapshot (.root 0)).keys = ["heard", "n", "seen"] := by decide +kernel
  obtain ⟨⟨s, w'⟩, hrun, rfl, hstore, hchanged, hkeys⟩ := hrun
  obtain ⟨s, w₁, hstart, hrun⟩ := Run.bind_eq_some_iff.1 hrun
  obtain ⟨_, _, hexecute, hlast⟩ := Run.bind_eq_some_iff.1 hrun
  cases hlast
  obtain ⟨store, since, hstore', hhistory, hlatest⟩ := hw.stores_latest (fun _ => rfl) rfl
    ⟨rfl, rfl⟩ hstart (.single (.execute 5 p hp hexecute))
  obtain rfl := Option.some.inj (hstore.symm.trans hstore')
  rw [show w'.history = since from hhistory.trans (List.append_nil since)] at hchanged
  obtain ⟨m, hm, hvalue⟩ := List.any_eq_true.1 hchanged
  have hchange : ∃ v, .changed 0 v ∈ since := by
    cases m with
    | changed store v =>
      rw [Moment.value?] at hvalue
      split at hvalue
      · next he => exact ⟨v, he ▸ hm⟩
      · cases hvalue
    | _ => cases hvalue
  obtain ⟨d', hd', hload, -⟩ := hlatest hchange trivial fun _ _ => trivial
  exact ⟨w₁, w', hstart, hexecute, hkeys, d', hd', hload⟩

end World

end LiveMarkup
