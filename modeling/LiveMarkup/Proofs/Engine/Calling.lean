import LiveMarkup.Proofs.Engine.Tracking
import LiveMarkup.Proofs.Engine.Upholding

/-!
# Calls keep track of a session

Whatever is called may write back, and so lead to further calls. If these keep track of a session
(`Watch.Faithful`), then so does every operation on a store, and so does the call itself. Since
calls are nested to some depth only, calls to any depth do (`Watch.faithful_invoke`).

The session is told of a change of its state before everybody else, so that it is late for no longer
than it takes to call it (`Faithful.ensures_notify`).
-/

namespace LiveMarkup

namespace Watch

open Run

variable [Html.Tokenizer] {σ : Type} {k : Watch} {late : Bool} {call : Callback σ → Run σ Unit}

/-- What is called keeps track of the session, and a refresh makes up for its being late. -/
structure Faithful (k : Watch) (call : Callback σ → Run σ Unit) : Prop where
  done : Harmless (call (.script .done))
  quiet : ∀ c : Callback σ, c.Quiet → Keeps (k.Tracks false) (call c)
  refresh : Ensures (k.Tracks true) (call (.refresh k.session)) fun _ => k.Tracks false

/-- Harmless runs leave what is kept track of. -/
theorem keeps_of_harmless {α : Type} {m : Run σ α} (h : Harmless m) : Keeps (k.Tracks late) m :=
  .of_forall fun w hw => (h w).mono (fun _ h => h) fun _ _ ha => hw.of_agrees ha

theorem ensures_of_harmless {α : Type} {m : Run σ α} (h : Harmless m) {w : World σ}
    (hw : k.Tracks late w) : Ensures (· = w) m fun _ => k.Tracks late :=
  (keeps_of_harmless h).here hw

omit [Html.Tokenizer] in
theorem harmless_record {m : Moment} (h : ∀ store, m.state? store = none) :
    Harmless (modify fun w : World σ => w.record m) :=
  .of_modify fun w => World.agrees_record w h

/-! ## Refreshing -/

omit [Html.Tokenizer] in
theorem harmless_render {s : SessionId} {w : World σ} (hs : w.session? s = none)
    (display : Dom → Option NodeId → List Char → Display) :
    Ensures (· = w) (render call display s) fun _ w' => w.Agrees w' := by
  unfold render
  refine .of_get ?_
  rintro w rfl
  rw [hs]
  exact .of_pure fun _ h => h ▸ .refl _

/-- A refresh of the session itself brings it up to date, however late it is. -/
theorem ensures_refresh_self (hdone : Harmless (call (.script .done))) :
    Ensures (k.Tracks late) (Run.refresh call k.session) fun _ => k.Tracks false := by
  refine .of_forall fun w hw => ?_
  obtain ⟨session, hs, -, -⟩ := hw.session
  refine (ensures_refresh hdone hw.orderly hs).mono (fun _ h => h) ?_
  rintro _ w' ⟨old?, new?, hr⟩
  exact hw.renews hs hr

theorem keeps_refresh (hdone : Harmless (call (.script .done))) (s : SessionId) :
    Keeps (k.Tracks false) (Run.refresh call s) := by
  by_cases he : k.session = s
  · subst he
    exact ensures_refresh_self hdone
  refine .of_forall fun w hw => ?_
  cases hs : w.session? s with
  | none =>
    exact .bind (harmless_render hs _) fun _ => .of_pure fun _ ha => hw.of_agrees ha
  | some session =>
    refine (ensures_refresh hdone hw.orderly hs).mono (fun _ h => h) ?_
    rintro _ w' ⟨old?, new?, hr⟩
    exact hw.redrawn hs he hr.shows hr.toRedrawn

theorem ensures_onChange_self (hdone : Harmless (call (.script .done))) :
    Ensures (k.Tracks late) (onChange call k.session) fun _ => k.Tracks false := by
  unfold onChange
  refine .of_get fun w hw => ?_
  obtain ⟨session, hs, -, -⟩ := hw.session
  rw [hs]
  exact (ensures_of_harmless (harmless_persist _) hw).bind fun _ => ensures_refresh_self hdone

/-- If another session hears of a change, the session that is kept track of is not touched. -/
theorem keeps_onChange (hdone : Harmless (call (.script .done))) (s : SessionId) :
    Keeps (k.Tracks false) (onChange call s) := by
  unfold onChange
  refine .of_get fun w hw => ?_
  split
  · exact .of_pure fun _ h => h ▸ hw
  · exact (ensures_of_harmless (harmless_persist _) hw).bind fun _ => keeps_refresh hdone s

/-! ## Writing -/

namespace Faithful

/-- A round of quiet listeners keeps track of the session, one call after the other. -/
theorem keeps_callAll (hc : k.Faithful call) (store : StoreId) (round : Nat)
    {ls : List (Listener σ)} (hq : ∀ l ∈ ls, l.callback.Quiet) :
    Keeps (k.Tracks false) (callAll call store round ls) := by
  induction ls with
  | nil => exact .of_pure fun _ h => h
  | cons l rest ih =>
    rw [List.forall_mem_cons] at hq
    refine .bind (keeps_of_harmless (harmless_record fun _ => rfl)) fun _ => ?_
    exact (hc.quiet l.callback hq.1).bind fun _ => ih hq.2

/-- After a change, the session is told first, and then shows what it has to. -/
theorem ensures_notify (hc : k.Faithful call) (store : StoreId) :
    Ensures (k.Tracks (decide (store = k.store))) (notify call store) fun _ => k.Tracks false := by
  unfold notify
  refine .of_get fun w hw => ?_
  have hq : ∀ l ∈ (w.stores[store]?.map Store.listeners).getD [], l.callback.Quiet := by
    cases hst : w.stores[store]? with
    | none => simp
    | some st => exact hw.orderly.listeners st (List.mem_of_getElem? hst)
  have hcall : Ensures (· = w) (callAll call store w.history.length
      ((w.stores[store]?.map Store.listeners).getD [])) fun _ => k.Tracks false := by
    by_cases he : store = k.store
    · rw [decide_eq_true he] at hw
      obtain ⟨st, rest, hst, hlisteners⟩ := hw.listener
      rw [he, hst, Option.map_some, Option.getD_some, hlisteners] at hq ⊢
      rw [List.forall_mem_cons] at hq
      exact (ensures_of_harmless (harmless_record fun _ => rfl) hw).bind fun _ =>
        hc.refresh.bind fun _ => hc.keeps_callAll _ _ hq.2
    · rw [decide_eq_false he] at hw
      exact (hc.keeps_callAll store _ hq).here hw
  exact hcall.bind fun _ => keeps_of_harmless (harmless_record fun _ => rfl)

theorem keeps_write (hc : k.Faithful call) (store : StoreId)
    (change : OrderedValue → Option OrderedValue) :
    Keeps (k.Tracks false) (write call store change) := by
  unfold write
  refine .of_get fun w hw => ?_
  split
  · exact .of_pure fun _ h => h ▸ hw
  · next v _ =>
    refine .bind (.of_set (Q := fun _ => k.Tracks (decide (store = k.store)))
      fun _ _ => hw.changed store v) fun _ => ?_
    exact (hc.ensures_notify store).bind fun _ => .of_pure fun _ h => h

theorem upholds (hc : k.Faithful call) : Upholds (k.Tracks false) Program.Quiet call where
  write := hc.keeps_write
  script _ hp := hc.quiet _ hp
  layers _ hw := hw.orderly.middleware
  report _ hw _ _ _ := hw.of_agrees (World.agrees_report _ _ _)
  merged _ hw _ _ _ _ := hw.of_agrees (World.agrees_record _ fun _ => rfl)

end Faithful

/-! ## Programs -/

theorem keeps_subscribe (store : StoreId) {c : Callback σ} (hc : c.Quiet) :
    Keeps (k.Tracks late) (subscribe store c) := by
  unfold subscribe
  refine .of_get fun w hw => ?_
  split
  · exact .of_pure fun _ h => h ▸ hw
  · refine .bind (.of_set (Q := fun _ => k.Tracks late) fun _ _ => ?_) fun _ =>
      .of_pure fun _ h => h
    refine Tracks.of_agrees ?_ (World.agrees_record _ fun _ => rfl)
    refine hw.modifyStore (fun _ st => ⟨rfl, fun l rest hl _ => ?_⟩) (fun st hl => ?_)
      fun _ hm => hm
    · exact ⟨_, by rw [Store.enlist, hl, List.cons_append]⟩
    · exact List.forall_mem_append.2 ⟨hl, List.forall_mem_singleton.2 hc⟩

theorem keeps_unsubscribe (store : StoreId) {id : SubscriptionId} (hid : id ≠ 0) :
    Keeps (k.Tracks (σ := σ) late) (unsubscribe store id) := by
  unfold unsubscribe
  refine .of_get fun w hw => ?_
  split
  · refine .bind (.of_set (Q := fun _ => k.Tracks late) fun _ _ => ?_) fun _ =>
      .of_pure fun _ h => h
    refine Tracks.of_agrees ?_ (World.agrees_record _ fun _ => rfl)
    refine hw.modifyStore (fun _ st => ⟨rfl, fun l rest hl hzero => ?_⟩) (fun st hl => ?_)
      fun _ hm => hm
    · refine ⟨rest.filter fun l => l.id != id, ?_⟩
      rw [Store.dismiss, hl, List.filter_cons_of_pos]
      simpa [hzero] using hid.symm
    · exact fun l hmem => hl l (List.mem_of_mem_filter hmem)
  · exact .of_pure fun _ h => h ▸ hw

theorem keeps_tell (f : σ → σ) :
    Keeps (k.Tracks late) (modify fun w : World σ => { w with host := f w.host }) :=
  keeps_of_harmless (.of_modify fun _ =>
    ⟨⟨rfl, rfl, rfl, rfl⟩, ⟨rfl, World.calm_of_eq rfl⟩, ⟨rfl, fun _ => rfl⟩⟩)

namespace Faithful

/-- A quiet program keeps track of the session. -/
theorem keeps_execute (hc : k.Faithful call) {p : Program σ} (hp : p.Quiet) :
    Keeps (k.Tracks false) (execute call p) := by
  induction p with
  | done => exact .of_pure fun _ h => h
  | ask next ih => exact .of_get fun w hw => (ih w.host (hp w.host)).here hw
  | tell f next ih => exact (keeps_tell f).bind fun _ => ih hp
  | value h next ih => exact .of_get fun w hw => (ih _ (hp _)).here hw
  | set h key v next ih => exact (hc.keeps_write h.store _).bind fun a => ih a (hp a)
  | setIndex h index v next ih => exact (hc.keeps_write h.store _).bind fun a => ih a (hp a)
  | remove h key next ih => exact (hc.upholds.remove h key).bind fun a => ih a (hp a)
  | merge h entries next ih => exact (hc.upholds.merge h _).bind fun a => ih a (hp a)
  | subscribe store listener next _ ih =>
    exact (keeps_subscribe store (c := .script listener) hp.1).bind fun a => ih a (hp.2 a)
  | unsubscribe store id next ih => exact (keeps_unsubscribe store hp.1).bind fun a => ih a (hp.2 a)
  | addDirective name expand script next => exact hp.elim
  | create state next ih =>
    exact .bind (.of_modifyGet (Q := fun _ => k.Tracks false) fun w hw => hw.addStore _ w.log)
      fun store => ih store (hp store)
  | element s next ih => exact .of_get fun w hw => (ih _ (hp _)).here hw
  | outerHtml s next ih => exact .of_get fun w hw => (ih _ (hp _)).here hw
  | render s next => exact hp.elim

end Faithful

theorem harmless_invoke_done (depth : Nat) :
    Harmless (invoke depth (.script .done) : Run σ Unit) := by
  cases depth with
  | zero => exact fun _ => .of_failure
  | succ depth => exact .of_pure ()

/-- Calls to any depth keep track of the session. -/
theorem faithful_invoke (k : Watch) (depth : Nat) :
    k.Faithful (invoke depth : Callback σ → Run σ Unit) := by
  induction depth with
  | zero => exact ⟨harmless_invoke_done 0, fun _ _ => .of_failure, .of_failure⟩
  | succ depth ih =>
    refine ⟨harmless_invoke_done _, fun c hc => ?_, ensures_onChange_self ih.done⟩
    cases c with
    | script p => exact ih.keeps_execute hc
    | refresh s => exact keeps_onChange ih.done s

end Watch

end LiveMarkup
