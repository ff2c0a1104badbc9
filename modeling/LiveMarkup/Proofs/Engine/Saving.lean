import LiveMarkup.Proofs.Engine.Keeping

/-!
# Calls keep the storage up to date

Whatever is called may write back, and so lead to further calls. If these keep the storage up to
date (`Keeper.Faithful`), then so does every operation, and so does the call itself. Since calls are
nested to some depth only, calls to any depth do (`Keeper.faithful_invoke`).

The session is called first in the round of a change, and saves its state before it is refreshed
(`Keeper.ensures_onChange_self`). A refresh that is left out makes no difference to that.
-/

namespace LiveMarkup

variable {σ α : Type}

namespace Keeper

open Run

variable {k : Keeper σ} {x : Watch} {late : Bool} {w : World σ} {call : Callback σ → Run σ Unit}

/-- What is called keeps the storage up to date, and a refresh makes up for its being late. -/
structure Faithful (k : Keeper σ) (x : Watch) (call : Callback σ → Run σ Unit) : Prop where
  callback : ∀ c : Callback σ, c.Heeds k → Keeps (k.Tracks x false) (call c)
  refresh : Ensures (k.Tracks x true) (call (.refresh x.session)) fun _ => k.Tracks x false

theorem keeps_emit (d : Diagnostic) : Keeps (k.Tracks x late) (emit d) :=
  .of_modify fun _ h => h.emit d

theorem keeps_record {m : Moment} (hm : ∀ store, m.state? store = none) :
    Keeps (k.Tracks x late) (modify fun w => w.record m) :=
  .of_modify fun _ h => h.record hm

/-! ## Saving -/

theorem retains_persist (state : Fields) (w : World σ) :
    Ensures (· = w) (persist state) fun _ w' => w.Retains w' := by
  have hreported (key : String) (e : StorageError) : Keeps w.Retains (reportStorage key e) :=
    .of_modify fun w' h => h.trans (w'.retains_report _ _)
  unfold persist
  refine .of_get ?_
  rintro w rfl
  split
  · next persistence storage _ _ =>
    cases storage with
    | builtin storage =>
      refine .bind (.of_modify (Q := fun _ => w.Retains) ?_) fun _ =>
        .bind (Q := fun _ => w.Retains) (.of_pure fun _ h => h) fun result => ?_
      · rintro _ rfl
        exact World.retains_of_eq rfl rfl rfl rfl rfl rfl rfl (World.calm_of_eq rfl)
      · cases result with
        | ok => exact .of_pure fun _ h => h
        | error e => exact hreported _ e
    | custom load save =>
      refine .bind (.of_modifyGet (Q := fun _ => w.Retains) ?_) fun result => ?_
      · rintro _ rfl
        exact World.retains_of_eq rfl rfl rfl rfl rfl rfl rfl (World.calm_of_eq rfl)
      · cases result with
        | ok => exact .of_pure fun _ h => h
        | error e => exact hreported _ e
  · refine .of_pure ?_
    rintro _ rfl
    exact World.retains_of_eq rfl rfl rfl rfl rfl rfl rfl (World.calm_of_eq rfl)

/-- Saving the state of the session brings the storage up to date. -/
theorem Tracks.persist (h : k.Tracks x late w) :
    Ensures (· = w) (persist (w.snapshot (.root x.store))) fun _ => k.Tracks x false := by
  rintro w _ w' rfl hpersist
  have hr := retains_persist _ w w () w' rfl hpersist
  obtain ⟨since, earlier, hhistory, hstates, hkept⟩ := h.kept
  obtain ⟨since', hhistory', hnone⟩ := hr.calm
  have hsnapshot : w'.snapshot (.root x.store) = w.snapshot (.root x.store) :=
    Watch.snapshot_eq (by rw [hr.stores])
  refine ⟨h.heeds.retains hr, hr.home.symm ▸ h.home, hr.stores.symm ▸ h.listener, since' ++ since,
    earlier, ?_, ?_, fun hfits => ?_⟩
  · rw [hhistory', hhistory, List.append_assoc]
  · rw [Watch.states_append hnone, hstates, hsnapshot]
  · rw [Watch.states_append hnone] at hfits
    obtain ⟨d, state?, hd, hholds, -⟩ := hkept hfits
    have hfit : k.Fits (w.snapshot (.root x.store)) :=
      hfits _ (hstates ▸ List.mem_cons_self)
    obtain ⟨d', hsaved, hholds'⟩ := k.exists_persist h.heeds.storageKey hd hholds hfit
    cases hpersist.symm.trans hsaved
    exact ⟨d', _, rfl, hholds', fun _ _ => congrArg some hsnapshot.symm⟩

/-! ## Refreshing -/

theorem keeps_modifySession (s : SessionId) {f : Session → Session}
    (hf : ∀ session, (f session).store = session.store) {m : Moment}
    (hm : ∀ store, m.state? store = none) :
    Keeps (k.Tracks x late) (modify fun w => (w.modifySession s f).record m) := by
  refine .of_modify fun w h => (h.retains (w.retains_modifySession s hf) ?_).record hm
  refine carries_of_eq ?_
  rw [World.modifySession]
  split <;> rfl

theorem keeps_replay (hc : k.Faithful x call) {directives : OrderedMap String (ActiveDirective σ)}
    (hd : ∀ d ∈ directives, ∀ arguments content state,
      (d.2.script arguments content state).Heeds k) (events : List Template.Event) :
    Keeps (k.Tracks x false) (replay call directives events) := by
  induction events with
  | nil => exact .of_pure fun _ h => h
  | cons e rest ih =>
    cases e with
    | reported d => exact (keeps_emit d).bind fun _ => ih
    | expanded name arguments content state =>
      rw [replay]
      split
      · next directive hf =>
        have hscript := hd _ (OrderedMap.mem_of_find? hf) arguments content state
        exact (hc.callback (.script _) hscript).bind fun _ => ih
      · exact ih

theorem keeps_compile (hc : k.Faithful x call) (template : String) (state : Fields) :
    Keeps (k.Tracks x false) (compile call template state) := by
  unfold compile
  refine .of_get fun w hw => ?_
  exact ((keeps_replay hc hw.heeds.directives _).here hw).bind fun _ => .of_pure fun _ h => h

theorem keeps_present (s : SessionId) (display : Display) :
    Keeps (k.Tracks x false) (present s display) := by
  have hshow : Keeps (k.Tracks x false)
      (modify fun w => (w.modifyEngine fun e => { e with dom := display.dom }).modifySession s
        fun session => { session with shown := display.root? }) := by
    refine .of_modify fun w h => ?_
    have hdom : w.Retains (w.modifyEngine fun e => { e with dom := display.dom }) :=
      World.retains_of_eq rfl rfl rfl rfl rfl rfl rfl (World.calm_of_eq rfl)
    refine h.retains (hdom.trans (World.retains_modifySession _ s fun _ => rfl)) (carries_of_eq ?_)
    rw [World.modifySession]
    split <;> rfl
  unfold present
  split
  · exact (keeps_emit _).bind fun _ => hshow
  · exact hshow

theorem keeps_render (hc : k.Faithful x call) (display : Dom → Option NodeId → List Char → Display)
    (s : SessionId) : Keeps (k.Tracks x false) (render call display s) := by
  unfold render
  refine .of_get fun w hw => ?_
  split
  · exact .of_pure fun _ h => h ▸ hw
  · split
    · exact ((keeps_emit _).here hw).bind fun _ => .of_pure fun _ h => h
    · have hbegin : Keeps (k.Tracks x false) (modify fun w => (w.modifySession s fun session =>
          { session with isRefreshing := true }).record (.began s)) :=
        keeps_modifySession s (fun _ => by rfl) fun _ => by rfl
      refine (hbegin.here hw).bind fun _ => ?_
      refine (keeps_compile hc _ _).bind fun markup => .of_get fun w hw => ?_
      have hend (root? : Option NodeId) : Keeps (k.Tracks x false) (do
          modify fun w => (w.modifySession s fun session =>
            { session with isRefreshing := false }).record (.ended s)
          pure root?) :=
        .bind (keeps_modifySession s (fun _ => by rfl) fun _ => by rfl) fun _ =>
          .of_pure fun _ h => h
      split
      · refine ((keeps_emit _).here hw).bind fun _ => ?_
        exact .bind (.of_pure (Q := fun _ => k.Tracks x false) fun _ h => h) hend
      · refine ((keeps_present s _).here hw).bind fun _ => ?_
        exact .bind (.of_pure (Q := fun _ => k.Tracks x false) fun _ h => h) hend

theorem keeps_refresh [Html.Tokenizer] (hc : k.Faithful x call) (s : SessionId) :
    Keeps (k.Tracks x false) (Run.refresh call s) :=
  (keeps_render hc _ s).bind fun _ => .of_pure fun _ h => h

/-- A session that is told of a change saves its state, and is then refreshed. -/
theorem ensures_onChange_self [Html.Tokenizer] (hc : k.Faithful x call) :
    Ensures (k.Tracks x late) (onChange call x.session) fun _ => k.Tracks x false := by
  unfold onChange
  refine .of_get fun w hw => ?_
  have hhome := hw.home x.session
  rw [if_pos rfl] at hhome
  obtain ⟨session, hs, hstore⟩ := Option.map_eq_some_iff.1 hhome
  rw [hs]
  dsimp only
  rw [hstore]
  exact hw.persist.bind fun _ => keeps_refresh hc x.session

theorem keeps_onChange [Html.Tokenizer] (hc : k.Faithful x call) (s : SessionId) :
    Keeps (k.Tracks x false) (onChange call s) := by
  by_cases he : s = x.session
  · subst he
    exact ensures_onChange_self hc
  unfold onChange
  refine .of_get fun w hw => ?_
  have hhome := hw.home s
  rw [if_neg he, World.home, Option.map_eq_none_iff] at hhome
  rw [hhome]
  exact .of_pure fun _ h => h ▸ hw

/-! ## Writing -/

namespace Faithful

theorem keeps_callAll (hc : k.Faithful x call) (store : StoreId) (round : Nat)
    {ls : List (Listener σ)} (hl : ∀ l ∈ ls, l.callback.Heeds k) :
    Keeps (k.Tracks x false) (callAll call store round ls) := by
  induction ls with
  | nil => exact .of_pure fun _ h => h
  | cons l rest ih =>
    rw [List.forall_mem_cons] at hl
    refine (keeps_record fun _ => rfl).bind fun _ => ?_
    exact (hc.callback l.callback hl.1).bind fun _ => ih hl.2

/-- After a change, the session is called first, and so the storage is up to date. -/
theorem ensures_notify (hc : k.Faithful x call) (store : StoreId) :
    Ensures (k.Tracks x (decide (store = x.store))) (notify call store) fun _ =>
      k.Tracks x false := by
  unfold notify
  refine .of_get fun w hw => ?_
  have hl : ∀ l ∈ (w.stores[store]?.map Store.listeners).getD [], l.callback.Heeds k := by
    cases hst : w.stores[store]? with
    | none => simp
    | some st => exact (hw.heeds.stores st (List.mem_of_getElem? hst)).listeners
  have hcall : Ensures (· = w) (callAll call store w.history.length
      ((w.stores[store]?.map Store.listeners).getD [])) fun _ => k.Tracks x false := by
    by_cases he : store = x.store
    · rw [decide_eq_true he] at hw
      obtain ⟨st, rest, hst, hlisteners⟩ := hw.listener
      rw [he, hst, Option.map_some, Option.getD_some, hlisteners] at hl ⊢
      rw [List.forall_mem_cons] at hl
      exact ((keeps_record fun _ => rfl).here hw).bind fun _ =>
        hc.refresh.bind fun _ => hc.keeps_callAll _ _ hl.2
    · rw [decide_eq_false he] at hw
      exact (hc.keeps_callAll store _ hl).here hw
  exact hcall.bind fun _ => keeps_record fun _ => rfl

theorem keeps_write (hc : k.Faithful x call) (store : StoreId)
    (change : OrderedValue → Option OrderedValue) :
    Keeps (k.Tracks x false) (write call store change) := by
  unfold write
  refine .of_get fun w hw => ?_
  split
  · exact .of_pure fun _ h => h ▸ hw
  · next v _ =>
    refine .bind (.of_set (Q := fun _ => k.Tracks x (decide (store = x.store)))
      fun _ _ => hw.changed store v) fun _ => ?_
    exact (hc.ensures_notify store).bind fun _ => .of_pure fun _ h => h

theorem upholds (hc : k.Faithful x call) :
    Upholds (k.Tracks x false) (Program.Heeds k) call where
  write := hc.keeps_write
  script _ hp := hc.callback _ hp
  layers _ hw st hst := (hw.heeds.stores st hst).middleware
  report _ hw st hst d := hw.report ((hw.heeds.stores st hst).sink d)
  merged _ hw _ _ _ _ := hw.record fun _ => rfl

end Faithful

/-! ## Programs -/

theorem keeps_subscribe (store : StoreId) {c : Callback σ} (hc : c.Heeds k) :
    Keeps (k.Tracks x late) (subscribe store c) := by
  unfold subscribe
  refine .of_get fun w hw => ?_
  split
  · exact .of_pure fun _ h => h ▸ hw
  · refine .bind (.of_set (Q := fun _ => k.Tracks x late) fun _ _ => ?_) fun _ =>
      .of_pure fun _ h => h
    refine Tracks.record ?_ fun _ => rfl
    refine hw.modifyStore (fun _ st => ⟨rfl, fun l rest hl _ => ?_⟩) fun st hst => ?_
    · exact ⟨_, by rw [Store.enlist, hl, List.cons_append]⟩
    · exact ⟨List.forall_mem_append.2 ⟨hst.listeners, List.forall_mem_singleton.2 hc⟩,
        hst.middleware, hst.sink⟩

theorem keeps_unsubscribe (store : StoreId) {id : SubscriptionId} (hid : id ≠ 0) :
    Keeps (k.Tracks x late) (unsubscribe store id) := by
  unfold unsubscribe
  refine .of_get fun w hw => ?_
  split
  · refine .bind (.of_set (Q := fun _ => k.Tracks x late) fun _ _ => ?_) fun _ =>
      .of_pure fun _ h => h
    refine Tracks.record ?_ fun _ => rfl
    refine hw.modifyStore (fun _ st => ⟨rfl, fun l rest hl hzero => ?_⟩) fun st hst => ?_
    · refine ⟨rest.filter fun l => l.id != id, ?_⟩
      rw [Store.dismiss, hl, List.filter_cons_of_pos]
      simpa [hzero] using hid.symm
    · exact ⟨fun l hmem => hst.listeners l (List.mem_of_mem_filter hmem), hst.middleware, hst.sink⟩
  · exact .of_pure fun _ h => h ▸ hw

theorem keeps_tell {f : σ → σ} (hf : k.Spares f) :
    Keeps (k.Tracks x late) (modify fun w : World σ => { w with host := f w.host }) := by
  refine .of_modify fun w h => h.retains
    (World.retains_of_eq rfl rfl rfl rfl rfl rfl rfl (World.calm_of_eq rfl))
    (carries_of_spares hf ?_)
  rw [World.depot?, World.depot?, Option.map_map]
  rfl

theorem keeps_addDirective (name : String) {directive : ActiveDirective σ}
    (hd : ∀ arguments content state, (directive.script arguments content state).Heeds k) :
    Keeps (k.Tracks x late) (addDirective name directive) := by
  refine .of_modify fun w h => ?_
  have hheeds := h.heeds
  refine h.of_calm ⟨hheeds.storageKey, fun d hmem => ?_, hheeds.handlers, hheeds.stores,
    hheeds.sink, hheeds.log⟩ rfl rfl h.listener ⟨[], rfl, rfl⟩ (carries_of_eq rfl)
  rcases OrderedMap.eq_or_mem_of_mem_put hmem with rfl | hmem
  · exact hd
  · exact hheeds.directives d hmem

namespace Faithful

/-- A program that minds the storage keeps it up to date. -/
theorem keeps_execute [Html.Tokenizer] (hc : k.Faithful x call) {p : Program σ} (hp : p.Heeds k) :
    Keeps (k.Tracks x false) (execute call p) := by
  induction p with
  | done => exact .of_pure fun _ h => h
  | ask next ih => exact .of_get fun w hw => (ih w.host (hp w.host)).here hw
  | tell f next ih => exact (keeps_tell hp.1).bind fun _ => ih hp.2
  | value h next ih => exact .of_get fun w hw => (ih _ (hp _)).here hw
  | set h key v next ih => exact (hc.keeps_write h.store _).bind fun a => ih a (hp a)
  | setIndex h index v next ih => exact (hc.keeps_write h.store _).bind fun a => ih a (hp a)
  | remove h key next ih => exact (hc.upholds.remove h key).bind fun a => ih a (hp a)
  | merge h entries next ih => exact (hc.upholds.merge h _).bind fun a => ih a (hp a)
  | subscribe store listener next _ ih =>
    exact (keeps_subscribe store (c := .script listener) hp.1).bind fun a => ih a (hp.2 a)
  | unsubscribe store id next ih =>
    exact (keeps_unsubscribe store hp.1).bind fun a => ih a (hp.2 a)
  | addDirective name expand script next _ ih =>
    have hadd : Keeps (k.Tracks x false) (addDirective name ⟨expand, script⟩) :=
      keeps_addDirective name hp.1
    exact hadd.bind fun _ => ih hp.2
  | create state next ih =>
    refine .bind (.of_modifyGet (Q := fun _ => k.Tracks x false) fun w hw => ?_)
      fun store => ih store (hp store)
    exact hw.addStore _ hw.heeds.log
  | element s next ih => exact .of_get fun w hw => (ih _ (hp _)).here hw
  | outerHtml s next ih => exact .of_get fun w hw => (ih _ (hp _)).here hw
  | render s next ih => exact (keeps_render hc _ s).bind fun a => ih a (hp a)

end Faithful

/-- Calls to any depth keep the storage up to date. -/
theorem faithful_invoke [Html.Tokenizer] (k : Keeper σ) (x : Watch) (depth : Nat) :
    k.Faithful x (invoke depth : Callback σ → Run σ Unit) := by
  induction depth with
  | zero => exact ⟨fun _ _ => .of_failure, .of_failure⟩
  | succ depth ih =>
    refine ⟨fun c hc => ?_, ensures_onChange_self ih⟩
    cases c with
    | script p => exact ih.keeps_execute hc
    | refresh s => exact keeps_onChange ih s

end Keeper

end LiveMarkup
