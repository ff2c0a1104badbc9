import LiveMarkup.Engine.Render
import LiveMarkup.Proofs.Engine.Rounds
import Mathlib.Logic.Relation

/-!
# Listeners that were unsubscribed

Whatever a caller does with an engine and its stores (`World.Acts`), a listener that was
unsubscribed is called only by rounds that had begun by then, and by none of them twice
(`World.Reached.called_of_unsubscribed`). Such a call does happen
(`World.calls_unsubscribed_listener`).
-/

namespace LiveMarkup

open Relation

variable {σ α : Type}

/-! ## What a caller does -/

namespace Run

variable {call call' : Callback σ → Run σ Unit} {w₀ : World σ}

/-- Runs that are paired with themselves go on with the rounds of the world before. -/
theorem keeps_of_pairs {m m' : Run σ α} (h : rounds.Pairs m m') : Keeps w₀.GoesOn m :=
  fun w a w' hw ha => hw.trans (h w trivial a w' ha).1

theorem keeps_of_idles {f : World σ → α × World σ} (h : ∀ w : World σ, w.Idles (f w).2) :
    Keeps w₀.GoesOn (modifyGet f) :=
  .of_modifyGet fun w hw => hw.trans (.of_idles (h w))

theorem keeps_modifyStore (store : StoreId) {f : Store σ → Store σ}
    (hl : ∀ st, (f st).listeners = st.listeners) (hn : ∀ st, (f st).nextId = st.nextId) :
    Keeps w₀.GoesOn (modify fun w => w.modifyStore store f) :=
  .of_modify fun _ hw => hw.trans ⟨⟨[], rfl, nofun⟩, fun _ hr => hr.modify_of_same store hl hn⟩

theorem keeps_addMiddleware (store : StoreId) (layer : Middleware σ) :
    Keeps w₀.GoesOn (addMiddleware store layer) :=
  keeps_modifyStore store (fun _ => rfl) fun _ => rfl

theorem keeps_reportTo (store : StoreId) (sink : Diagnostic → σ → σ) :
    Keeps w₀.GoesOn (reportTo store sink) :=
  keeps_modifyStore store (fun _ => rfl) fun _ => rfl

theorem keeps_restore : Keeps w₀.GoesOn restore := by
  unfold restore
  refine .of_get fun w hw => ?_
  split
  · next persistence storage _ _ =>
    have hreport (e : StorageError) : Keeps w₀.GoesOn (do
        reportStorage persistence.storageKey e
        pure (none : Option State)) :=
      .bind (keeps_of_pairs (Pairing.pairs_emit _)) fun _ => .of_pure fun _ h => h
    cases storage with
    | builtin storage =>
      refine .bind (.of_pure (Q := fun _ => w₀.GoesOn) fun _ h => h ▸ hw) fun stored => ?_
      cases stored with
      | ok state? => exact .of_pure fun _ h => h
      | error e => exact hreport e
    | custom load save =>
      refine .bind ((keeps_of_pairs (Pairing.pairs_withHost _)).here hw) fun stored => ?_
      cases stored with
      | ok state? => exact .of_pure fun _ h => h
      | error e => exact hreport e
  · exact .of_pure fun _ h => h ▸ hw

/-- To open a session subscribes it, and begins no round of its own. -/
theorem keeps_start [Html.Tokenizer] (hcall : ∀ c, rounds.Pairs (call c) (call' c))
    (template : String) (state : State) : Keeps w₀.GoesOn (start call template state) := by
  have hopen (store : StoreId) : Keeps w₀.GoesOn (do
      let s ← modifyGet fun w => (w.nextSession, { w with
        sessions := OrderedMap.put w.sessions w.nextSession { store, template }
        nextSession := w.nextSession + 1 })
      let id ← subscribe store (.refresh s)
      modify fun w => w.modifySession s fun session => { session with subscription := id }
      let _ ← mount call s
      pure s) := by
    refine .bind (keeps_of_idles fun _ => World.idles_of_eq rfl rfl) fun s => ?_
    refine .bind (keeps_of_pairs (Pairing.pairs_subscribe store _)) fun id => ?_
    refine .bind (keeps_of_idles fun w => w.idles_modifySession s _) fun _ => ?_
    refine .bind (keeps_of_pairs (Pairing.pairs_render hcall _ s)) fun _ => ?_
    exact .of_pure fun _ h => h
  unfold start
  refine .bind (.of_modifyGet (Q := fun _ => w₀.GoesOn) fun w hw =>
    hw.trans (w.goesOn_addStore state _)) fun store => ?_
  refine .bind keeps_restore fun stored? => ?_
  cases stored? with
  | none => exact hopen store
  | some stored =>
    exact .bind (keeps_modifyStore store (fun _ => rfl) fun _ => rfl) fun _ => hopen store

theorem keeps_startFromSource [Html.Tokenizer] (hcall : ∀ c, rounds.Pairs (call c) (call' c))
    (locator : String) (state : State) : Keeps w₀.GoesOn (startFromSource call locator state) := by
  have hemit (text : String) : Keeps w₀.GoesOn (do
      emit (.fetchFailed locator text)
      pure (none : Option SessionId)) :=
    .bind (keeps_of_pairs (Pairing.pairs_emit _)) fun _ => .of_pure fun _ h => h
  unfold startFromSource
  refine .of_get fun w hw => ?_
  split
  · exact (hemit _).here hw
  next source _ =>
  have hfetch : Keeps w₀.GoesOn (fetch source locator) := by
    cases source with
    | files source => exact .of_get fun w hw => .of_pure fun _ h => h ▸ hw
    | custom fetch => exact keeps_of_pairs (Pairing.pairs_withHost _)
  have hcached : Keeps w₀.GoesOn (w.engine.cache.getOrFetch (fetch source) locator w.now) := by
    unfold TemplateCache.getOrFetch
    split
    · exact .of_pure fun _ h => h
    · refine .bind hfetch fun fetched => ?_
      split
      · exact .of_pure fun _ h => h
      · exact .of_pure fun _ h => h
  refine .bind (hcached.here hw) fun ⟨fetched, cache⟩ => ?_
  refine .bind (keeps_of_idles fun w => World.idles_of_eq rfl rfl) fun _ => ?_
  cases fetched with
  | ok template =>
    change Keeps w₀.GoesOn (some <$> start call template state)
    rw [map_eq_pure_bind]
    exact .bind (keeps_start hcall template state) fun _ => .of_pure fun _ h => h
  | error e => exact hemit _

theorem keeps_close (s : SessionId) : Keeps (σ := σ) w₀.GoesOn (close s) := by
  unfold close
  refine .of_get fun w hw => ?_
  split
  · exact .of_pure fun _ h => h ▸ hw
  · refine .bind ((keeps_of_pairs (Pairing.pairs_unsubscribe _ _)).here hw) fun _ => ?_
    exact keeps_of_idles fun w => World.idles_of_eq rfl rfl

theorem keeps_update [Html.Tokenizer] (hcall : ∀ c, rounds.Pairs (call c) (call' c)) (s : SessionId)
    (entries : State) : Keeps w₀.GoesOn (update call s entries) := by
  unfold update
  refine .of_get fun w hw => ?_
  split
  · exact .of_pure fun _ h => h ▸ hw
  · refine .bind ((keeps_of_pairs (pairs_merge hcall _ _)).here hw) fun _ => ?_
    exact .bind (keeps_of_pairs (Pairing.pairs_render hcall _ s)) fun _ => .of_pure fun _ h => h

theorem keeps_dispatch (hcall : ∀ c, rounds.Pairs (call c) (call' c)) (s : SessionId)
    (node : NodeId) : Keeps w₀.GoesOn (dispatch call s node) := by
  unfold dispatch
  refine .of_get fun w hw => ?_
  split
  · exact .of_pure fun _ h => h ▸ hw
  split
  · exact .of_pure fun _ h => h ▸ hw
  split
  · exact .bind ((keeps_of_pairs (hcall _)).here hw) fun _ => .of_pure fun _ h => h
  · exact .bind ((keeps_of_pairs (Pairing.pairs_emit _)).here hw) fun _ => .of_pure fun _ h => h

end Run

namespace World

/-- A caller does something with an engine and its stores. -/
inductive Acts [Html.Tokenizer] : World σ → World σ → Prop
  | execute {w w' : World σ} (depth : Nat) (p : Program σ)
      (h : Run.execute (Run.invoke depth) p w = some ((), w')) : Acts w w'
  | start {w w' : World σ} (depth : Nat) (template : String) (state : State) (s : SessionId)
      (h : Run.start (Run.invoke depth) template state w = some (s, w')) : Acts w w'
  | startFromSource {w w' : World σ} (depth : Nat) (locator : String) (state : State)
      (s? : Option SessionId)
      (h : Run.startFromSource (Run.invoke depth) locator state w = some (s?, w')) : Acts w w'
  | update {w w' : World σ} (depth : Nat) (s : SessionId) (entries : State)
      (h : Run.update (Run.invoke depth) s entries w = some ((), w')) : Acts w w'
  | dispatch {w w' : World σ} (depth : Nat) (s : SessionId) (node : NodeId) (handled : Bool)
      (h : Run.dispatch (Run.invoke depth) s node w = some (handled, w')) : Acts w w'
  | close {w w' : World σ} (s : SessionId) (h : Run.close s w = some ((), w')) : Acts w w'
  | addMiddleware {w w' : World σ} (store : StoreId) (layer : Middleware σ)
      (h : Run.addMiddleware store layer w = some ((), w')) : Acts w w'
  | reportTo {w w' : World σ} (store : StoreId) (sink : Diagnostic → σ → σ)
      (h : Run.reportTo store sink w = some ((), w')) : Acts w w'
  /-- What has to do with neither stores nor calls: the engine's settings, nodes, files, time. -/
  | other {w w' : World σ} (hs : w'.stores = w.stores) (hh : w'.history = w.history) : Acts w w'

/-- What becomes of a newly built engine in the hands of a caller. -/
def Reached [Html.Tokenizer] (w : World σ) : Prop :=
  ∃ options log files host, ReflTransGen Acts (build options log files host) w

variable {w w' : World σ}

theorem Acts.goesOn [Html.Tokenizer] (h : w.Acts w') : w.GoesOn w' := by
  have hcall (depth : Nat) (c : Callback σ) : rounds.Pairs (Run.invoke depth c)
      (Run.invoke depth c) := Run.pairs_invoke depth c
  have hrefl : w.GoesOn w := rounds.leads_refl w
  cases h with
  | execute depth p h =>
    exact Run.keeps_of_pairs (Run.pairs_invoke (depth + 1) (.script p)) w () w' hrefl h
  | start depth template state s h =>
    exact Run.keeps_start (hcall depth) template state w s w' hrefl h
  | startFromSource depth locator state s? h =>
    exact Run.keeps_startFromSource (hcall depth) locator state w s? w' hrefl h
  | update depth s entries h => exact Run.keeps_update (hcall depth) s entries w () w' hrefl h
  | dispatch depth s node handled h =>
    exact Run.keeps_dispatch (hcall depth) s node w handled w' hrefl h
  | close s h => exact Run.keeps_close s w () w' hrefl h
  | addMiddleware store layer h => exact Run.keeps_addMiddleware store layer w () w' hrefl h
  | reportTo store sink h => exact Run.keeps_reportTo store sink w () w' hrefl h
  | other hs hh => exact .of_idles (idles_of_eq hs hh)

/-- However often a caller acts, the history only goes on. -/
theorem goesOn_of_acts [Html.Tokenizer] (h : ReflTransGen Acts w w') : w.GoesOn w' := by
  induction h with
  | refl => exact rounds.leads_refl w
  | tail _ hact ih => exact ih.trans hact.goesOn

/-- An engine that was just built has no listeners and no history. -/
theorem regular_build (options : EngineOptions σ) (log : Diagnostic → σ → σ) (files : FileTree)
    (host : σ) :
    Regular (build options log files host).stores (build options log files host).history :=
  ⟨told_nil, nofun, fun _ _ => rfl⟩

/-- No listener is called twice in a round. A listener that was unsubscribed is called only by
rounds that had begun by then. -/
theorem Reached.called_of_unsubscribed [Html.Tokenizer] (h : w.Reached)
    (hfew : FewSubscriptions w.history) : (calls w.history).Nodup ∧
      ∀ later between before store id round,
        w.history = later ++ .called store id round ::
          (between ++ .unsubscribed store id :: before) →
        ∃ value earlier, .changed store value :: earlier <:+ before ∧
          earlier.length + 1 = round := by
  obtain ⟨options, log, files, host, hrun⟩ := h
  have hregular := (goesOn_of_acts hrun).regular hfew (regular_build options log files host)
  exact ⟨hregular.told.once, fun _ _ _ _ _ _ he => hregular.exists_changed he⟩

/-- A caller subscribes a listener that ends the next subscription, and then another one. When the
state changes, the first listener ends the subscription of the other one. -/
def twoListeners : Program Unit :=
  .create [] fun store =>
    .subscribe store (.unsubscribe store 1 fun _ => .done) fun _ =>
      .subscribe store .done fun _ => .set (.root store) "a" .null fun _ => .done

/-- The listener whose subscription was ended is called once more, by the round of the change that
was recorded before. -/
theorem Reached.called_of_unsubscribed_other : ∃ w' before,
    Run.execute (Run.invoke 2) twoListeners (build {} (fun _ host => host) [] ()) = some ((), w') ∧
      w'.Reached ∧ FewSubscriptions w'.history ∧ (calls w'.history).Nodup ∧
      w'.history = [.told 0, .called 0 1 3, .unsubscribed 0 1] ++ before ∧
      ∃ value earlier, .changed 0 value :: earlier <:+ before ∧ earlier.length + 1 = 3 := by
  refine ⟨_, [.called 0 0 3, .changed 0 (.ofValue (.object [("a", .null)])), .subscribed 0 1,
    .subscribed 0 0], rfl, ?_⟩
  have hreached : Reached _ :=
    ⟨{}, fun _ host => host, [], (), .single (.execute 2 twoListeners rfl)⟩
  have hfew : FewSubscriptions [.told 0, .called 0 1 3, .unsubscribed 0 1, .called 0 0 3,
      .changed 0 (.ofValue (.object [("a", .null)])), .subscribed 0 1, .subscribed 0 0] :=
    fun _ => Nat.lt_of_le_of_lt List.countP_le_length (by decide)
  obtain ⟨honce, hrounds⟩ := hreached.called_of_unsubscribed hfew
  exact ⟨hreached, hfew, honce, rfl, hrounds [.told 0] [] _ 0 1 3 rfl⟩

/-- A listener is called although it was unsubscribed. -/
theorem calls_unsubscribed_listener : ∃ w' later between before,
    Run.execute (Run.invoke 2) twoListeners (build {} (fun _ host => host) [] ()) = some ((), w') ∧
      w'.history = later ++ .called 0 1 3 :: (between ++ .unsubscribed 0 1 :: before) :=
  ⟨_, [.told 0], [], [.called 0 0 3, .changed 0 (.ofValue (.object [("a", .null)])),
    .subscribed 0 1, .subscribed 0 0], rfl, rfl⟩

end World

end LiveMarkup
