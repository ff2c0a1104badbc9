import LiveMarkup.Proofs.Engine.Opening
import LiveMarkup.Proofs.Engine.Settling

/-!
# Refreshes do not nest, and writes end

Sessions listen to their own states, and their directives write into the states of any session. So a
write can lead to refreshes of several sessions inside one another, but at every moment each session
is being refreshed at most once, and every write ends (`World.Wired.settled`).

* `World.Arranged` are the worlds in which a caller opens sessions and writes, and does nothing
  else. They are wired (`World.Arranged.wired`).
* `World.Settled` says what a caller finds when his writes have returned.

While somebody else holds the nodes, the report that a refresh was left out is also made for
refreshes that are not inside one another (`World.reports_held_nodes`).
-/

namespace LiveMarkup

open Run

variable {σ α : Type}

namespace World

variable {w w' : World σ} {busy : List SessionId} {template : String} {s : SessionId}

/-! ## Arranging -/

/-- A caller builds an engine, registers directives that only read and write, opens sessions, and
writes; and at times he holds the nodes. A run ends with what it ends with however deep calls may be
nested from some depth on. -/
inductive Arranged [Html.Tokenizer] : World σ → Prop
  | build (options : EngineOptions σ) (log : Diagnostic → σ → σ) (files : FileTree) (host : σ) :
      Arranged (build options log files host)
  | addDirective {w w' : World σ} (hw : Arranged w) (name : String) (directive : ActiveDirective σ)
      (hscript : ∀ arguments content state, (directive.script arguments content state).OnlyWrites)
      (h : Run.addDirective name directive w = some ((), w')) : Arranged w'
  | hold {w : World σ} (hw : Arranged w) (isLocked : Bool) :
      Arranged (w.modifyEngine fun e => { e with isLocked })
  | start {w w' : World σ} (hw : Arranged w) (template : String) (state : State) (need : ℕ)
      (s : SessionId) (h : Ends (fun d => Run.start (invoke d) template state) need w s w') :
      Arranged w'
  | execute {w w' : World σ} (hw : Arranged w) (p : Program σ) (hp : p.OnlyWrites) (need : ℕ)
      (h : Ends (fun d => Run.execute (invoke d) p) need w () w') : Arranged w'

theorem wired_build (options : EngineOptions σ) (log : Diagnostic → σ → σ) (files : FileTree)
    (host : σ) : (World.build options log files host).Wired [] where
  scripts := nofun
  middleware := nofun
  heard := nofun
  unheard := nofun
  nodup := List.nodup_nil
  mem_busy _ := ⟨nofun, fun ⟨_, h, _⟩ => nomatch h⟩
  known _ h := absurd rfl h

/-- What an engine is told is no matter, if its directives still only write. -/
theorem Wired.modifyEngine (hw : w.Wired busy) {f : Engine σ → Engine σ}
    (hscripts : ∀ d ∈ (f w.engine).directives, ∀ arguments content state,
      (d.2.script arguments content state).OnlyWrites) : (w.modifyEngine f).Wired busy where
  scripts := hscripts
  middleware := hw.middleware
  heard := hw.heard
  unheard := hw.unheard
  nodup := hw.nodup
  mem_busy := hw.mem_busy
  known := hw.known

theorem Founds.home (h : w.Founds w' template) (s : SessionId) :
    w'.home s = if s = w.nextSession then some w.stores.length else w.home s := by
  rw [World.home, h.session?]
  split <;> rfl

/-- A store is an old one, or the one of the session that is opened. -/
theorem Founds.store_cases (h : w.Founds w' template) {store : StoreId} {st : Store σ}
    (hst : w'.stores[store]? = some st) :
    w.stores[store]? = some st ∨ store = w.stores.length ∧ st.middleware = [] := by
  obtain ⟨value, h⟩ := h
  rw [h.stores] at hst
  rcases Nat.lt_or_ge store w.stores.length with hlt | hge
  · rw [List.getElem?_append_left hlt] at hst
    exact .inl hst
  · rw [List.getElem?_append_right hge, List.getElem?_singleton] at hst
    split at hst
    · next he =>
      cases hst
      exact .inr ⟨Nat.le_antisymm (Nat.sub_eq_zero_iff_le.1 he) hge, rfl⟩
    · cases hst

/-- The session that is opened is the only one that listens to its store. -/
theorem Wired.founds (hw : w.Wired busy) (h : w.Founds w' template) : w'.Wired busy := by
  have ⟨value, hopens⟩ := h
  have hnew : w.home w.nextSession = none := by
    by_contra hno
    exact Nat.lt_irrefl _ (hw.known _ hno)
  refine ⟨hopens.directives.symm ▸ hw.scripts, ?_, ?_, ?_, hw.nodup, ?_, ?_⟩
  · intro store st hst
    rcases h.store_cases hst with hst | ⟨-, hnone⟩
    · exact hw.middleware store st hst
    · exact hnone
  · intro s session hs
    rw [h.session?] at hs
    rw [hopens.stores]
    split at hs
    · next he =>
      cases hs
      exact ⟨_, List.getElem?_concat_length, by rw [he]⟩
    · obtain ⟨st, hst, hlisteners⟩ := hw.heard s session hs
      refine ⟨st, ?_, hlisteners⟩
      rw [List.getElem?_append_left (List.getElem?_eq_some_iff.1 hst).1, hst]
  · intro store st hst hno
    rcases h.store_cases hst with hst | ⟨rfl, -⟩
    · refine hw.unheard store st hst fun s hs => ?_
      have hne : s ≠ w.nextSession := by
        rintro rfl
        rw [hnew] at hs
        cases hs
      exact hno s (by rw [h.home, if_neg hne, hs])
    · exact absurd (by rw [h.home, if_pos rfl]) (hno w.nextSession)
  · intro s
    rw [hw.mem_busy, h.session?]
    split
    · next he =>
      rw [World.home, Option.map_eq_none_iff] at hnew
      simp [he, hnew]
    · rfl
  · intro s hs
    rw [hopens.nextSession]
    rw [h.home] at hs
    split at hs
    · next he => exact he ▸ Nat.lt_succ_self _
    · exact Nat.lt_succ_of_lt (hw.known s hs)

end World

/-! ## Opening a session -/

namespace Run

theorem incidental_restore : Incidental (restore : Run σ (Option State)) := by
  unfold restore
  refine .of_get fun w => ?_
  split
  · next persistence storage _ _ =>
    have hreport (e : StorageError) : Incidental (do
        reportStorage persistence.storageKey e
        pure none : Run σ (Option State)) :=
      .bind (incidental_reportStorage _ _) fun _ => .of_pure _
    cases storage with
    | builtin storage => exact .bind (.of_pure _) (.of_except (fun _ => .of_pure _) hreport)
    | custom load save =>
      exact .bind (incidental_withHost _) (.of_except (fun _ => .of_pure _) hreport)
  · exact .of_pure _

variable {w : World σ}

/-- Once a new store has its state, a session is opened on it and shown. -/
theorem ends_open [Html.Tokenizer] (hw : w.Wired []) {w₁ : World σ} {value : OrderedValue}
    (h₁ : w.Gains w₁ { value, sink := w.engine.sink }) (template : String) :
    ∃ need w', w'.Wired [] ∧ Ends (fun d => do
      let s ← modifyGet fun w' => (w'.nextSession, { w' with
        sessions :=
          OrderedMap.put w'.sessions w'.nextSession { store := w.stores.length, template }
        nextSession := w'.nextSession + 1 })
      let id ← subscribe w.stores.length (.refresh s)
      modify fun w' => w'.modifySession s fun session => { session with subscription := id }
      let _ ← mount (invoke d) s
      pure s) need w₁ w.nextSession w' := by
  have h₂ := h₁.opens { store := w.stores.length, template }
  generalize hw₂ : ({ w₁ with
    sessions := OrderedMap.put w₁.sessions w₁.nextSession { store := w.stores.length, template }
    nextSession := w₁.nextSession + 1 } : World σ) = w₂ at h₂
  have hstore : w₂.stores[w.stores.length]? = some { value, sink := w.engine.sink } := by
    rw [h₂.stores, List.getElem?_concat_length]
  let w₃ := (w₂.modifyStore w.stores.length fun st =>
    st.enlist (.refresh w.nextSession)).record (.subscribed w.stores.length 0)
  have h₃ : w.Opens w₃ { store := w.stores.length, template }
      { value, listeners := [⟨0, .refresh w.nextSession⟩], nextId := 1, sink := w.engine.sink } :=
    (h₂.modifyStore fun st => st.enlist (.refresh w.nextSession)).record fun _ => rfl
  let w₄ := w₃.modifySession w.nextSession fun session => { session with subscription := 0 }
  have h₄ : w.Founds w₄ template := ⟨value, h₃.modifySession _⟩
  obtain ⟨root?, w', inner, hends, hpasses, -⟩ := ends_render (settlesBelow w₄.sessions.length)
    (hw.founds h₄) (Nat.le_add_left _ _) (by rw [h₄.session?, if_pos rfl]) List.not_mem_nil
    fun dom _ markup => defect?_mount dom markup
  refine ⟨2 * w₄.sessions.length, w', (hw.founds h₄).of_same hpasses.toSameWiring,
    fun depth hdepth => ?_⟩
  refine bind_eq_some_iff.2 ⟨w.nextSession, w₂, ?_, ?_⟩
  · exact congrArg₂ (fun s w => some (s, w)) h₁.nextSession hw₂
  · refine bind_eq_some_iff.2 ⟨0, w₃, ?_, ?_⟩
    · unfold subscribe
      refine bind_eq_some_iff.2 ⟨w₂, w₂, rfl, ?_⟩
      rw [hstore]
      rfl
    · refine bind_eq_some_iff.2 ⟨(), w₄, rfl, ?_⟩
      exact bind_eq_some_iff.2 ⟨root?, w', hends depth hdepth, rfl⟩

/-- Opening a session ends, and leaves the world wired. -/
theorem ends_start [Html.Tokenizer] (hw : w.Wired []) (template : String) (state : State) :
    ∃ need s w', Ends (fun d => start (invoke d) template state) need w s w' ∧ w'.Wired [] := by
  obtain ⟨stored?, w₁, asides, hrestore, -⟩ :=
    incidental_restore (w.addStore state w.engine.sink).1
  have hgains := (w.gains_addStore state w.engine.sink).agrees
    (harmless_restore _ _ _ _ rfl hrestore)
  cases stored? with
  | none =>
    obtain ⟨need, w', hw', hends⟩ := ends_open hw hgains template
    refine ⟨need, w.nextSession, w', fun depth hdepth => ?_, hw'⟩
    unfold start
    refine bind_eq_some_iff.2 ⟨w.stores.length, _, rfl, ?_⟩
    exact bind_eq_some_iff.2 ⟨none, w₁, hrestore, hends depth hdepth⟩
  | some stored =>
    obtain ⟨need, w', hw', hends⟩ := ends_open hw
      (hgains.modifyStore fun st => { st with value := stored.root }) template
    refine ⟨need, w.nextSession, w', fun depth hdepth => ?_, hw'⟩
    unfold start
    refine bind_eq_some_iff.2 ⟨w.stores.length, _, rfl, ?_⟩
    refine bind_eq_some_iff.2 ⟨some stored, w₁, hrestore, ?_⟩
    exact bind_eq_some_iff.2 ⟨(), _, rfl, hends depth hdepth⟩

theorem Ends.unique {m : ℕ → Run σ α} {need need' : ℕ} {a b : α} {w' w'' : World σ}
    (h : Ends m need w a w') (h' : Ends m need' w b w'') : a = b ∧ w' = w'' := by
  have he := (h (max need need') (le_max_left _ _)).symm.trans
    (h' (max need need') (le_max_right _ _))
  exact Prod.mk.inj (Option.some.inj he)

end Run

namespace World

variable {w w' : World σ} {busy : List SessionId}

/-- Whatever a caller arranges, the sessions are the only listeners, and none is being refreshed. -/
theorem Arranged.wired [Html.Tokenizer] (h : w.Arranged) : w.Wired [] := by
  induction h with
  | build options log files host => exact wired_build options log files host
  | addDirective _ name directive hscript h ih =>
    cases h
    refine ih.modifyEngine fun d hd => ?_
    rcases OrderedMap.eq_or_mem_of_mem_put hd with rfl | hd
    · exact hscript
    · exact ih.scripts d hd
  | hold _ isLocked ih => exact ih.modifyEngine ih.scripts
  | start _ template state need s h ih =>
    obtain ⟨need', s', w₁, hends, hwired⟩ := ends_start ih template state
    exact (h.unique hends).2 ▸ hwired
  | execute _ p hp need h ih =>
    obtain ⟨_, w₁, since, hends, hpasses, -⟩ := settles_execute ih hp
    exact (h.unique hends).2 ▸ ih.of_same hpasses.toSameWiring

/-! ## What a caller finds -/

/-- What happened while the sessions of `busy` were being refreshed: refreshes do not nest, and the
changes that they leave out are reported once each. -/
structure Accounts (w : World σ) (busy : List SessionId) (since : List Moment) : Prop where
  /-- At every moment each session is being refreshed at most once. -/
  once : ∀ t, t <:+ since →
    (refreshing busy t).Nodup ∧ (refreshing busy t).length ≤ w.sessions.length
  /-- In the end, no other sessions are being refreshed than before. -/
  finished : refreshing busy since = busy
  /-- A change of a session's state is followed by its refresh, or by one report. -/
  answered : ∀ later store v before s, since = later ++ .changed store v :: before →
    w.home s = some store → Answered (refreshing busy before) s store later
  /-- There are no other such reports, unless somebody else holds the nodes. -/
  leftOut : ∀ later before, since = later ++ .reported .reentrantRefresh :: before →
    LeftOut w.home w.engine.isLocked busy later before

/-- What a caller finds when his writes have returned. -/
structure Settled [Html.Tokenizer] (w w' : World σ) (busy : List SessionId) : Prop where
  /-- Each session is still the only listener of its store, and no other sessions are being
  refreshed than before. -/
  wired : w'.Wired busy
  home : w'.home = w.home
  /-- The states are what the latest changes made them. -/
  happened : ∃ since, w'.history = since ++ w.history ∧ w.Accounts busy since ∧
    ∀ store, w'.state? store = (since.findSome? (Moment.value? store)).or (w.state? store)
  /-- A session is refreshed on the next change of its state, unless it is being refreshed. Then the
  change is made and nothing else. (`Run.write` is what a program changes states by.) -/
  next : ∀ s store change v, w.home s = some store → (w'.state? store).bind change = some v →
    ∃ w'' response id round,
      Ends (fun d => write (invoke d) store change) (2 * (w.sessions.length - busy.length) + 1)
        w' true w'' ∧
      w''.history =
        .told store :: (response ++ .called store id round :: .changed store v :: w'.history) ∧
      Response w.home w.engine.isLocked busy s response ∧
      (s ∈ busy → w''.state? store = some v)

theorem Wired.accounts (hw : w.Wired busy) {since : List Moment}
    (h : Unfolds w.home w.engine.isLocked busy since) : w.Accounts busy since where
  once _ ht :=
    have honce := h.onceEach_refreshing hw.onceEach ht
    ⟨honce.1, length_le_of_onceEach honce⟩
  finished := h.refreshing_eq
  answered _ _ _ _ _ hsince hs :=
    h.answered (fun _ _ _ hs hs' => hw.home_injective hs hs') hsince hs
  leftOut _ _ hsince := h.leftOut hsince

/-- A session that is being refreshed changes no state when it is told of a change. -/
theorem findSome?_value?_of_busy {home : SessionId → Option StoreId} {isLocked : Bool}
    {response : List Moment} (h : Response home isLocked busy s response) (hs : s ∈ busy)
    (store : StoreId) : response.findSome? (Moment.value? store) = none := by
  cases h with
  | skipped _ hasides =>
    refine List.findSome?_eq_none_iff.2 (List.forall_mem_cons.2 ⟨rfl, fun m hm => ?_⟩)
    have haside := hasides m hm
    cases m <;> first | rfl | exact haside.elim
  | refreshed hidle _ _ => exact absurd hs hidle

/-- Refreshes do not nest, and writes end. -/
theorem Wired.settled [Html.Tokenizer] (hw : w.Wired busy) {p : Program σ} (hp : p.OnlyWrites) :
    ∃ w', Ends (fun d => execute (invoke d) p) (2 * (w.sessions.length - busy.length) + 1) w () w' ∧
      w.Settled w' busy := by
  obtain ⟨_, w', since, hends, hpasses, hunfolds⟩ := settles_execute hw hp
  have hw' := hw.of_same hpasses.toSameWiring
  refine ⟨w', hends, hw', hpasses.home, ⟨since, hpasses.history, hw.accounts hunfolds,
    hpasses.state?⟩, fun s store change v hs hchange => ?_⟩
  have hroom : w'.sessions.length ≤ busy.length + (w.sessions.length - busy.length) := by
    rw [hpasses.count]
    omega
  obtain ⟨w'', response, id, round, hwrite, hpasses', hresponse⟩ :=
    ends_write_of_heard (settlesBelow _) hw' hroom (hpasses.home ▸ hs) hchange
  rw [hpasses.home, hpasses.isLocked] at hresponse
  refine ⟨w'', response, id, round, hwrite, ?_, hresponse, fun hbusy => ?_⟩
  · simpa using hpasses'.history
  · have htold : Moment.value? store (.told store) = none := rfl
    have hcalled : Moment.value? store (.called store id round) = none := rfl
    have hchanged : Moment.value? store (.changed store v) = some v := if_pos rfl
    rw [hpasses'.state?, List.findSome?_cons, htold, List.findSome?_append,
      findSome?_value?_of_busy hresponse hbusy, List.findSome?_cons, hcalled, List.findSome?_cons,
      hchanged]
    rfl

/-- Two sessions, whose directive writes what it is given into the states of both. -/
theorem Wired.settled_of_two_sessions :
    let keep : ActiveDirective Unit :=
      { expand := fun _ content _ => content
        script := fun _ content _ =>
          .set (.root 0) "kept" (.string (String.ofList content)) fun _ =>
            .set (.root 1) "kept" (.string (String.ofList content)) fun _ => .done }
    let p : Program Unit := .set (.root 0) "n" (.number (.int 2)) fun _ => .done
    ∃ need₁ need₂ s₁ s₂ w₁ w₂ w',
      Ends (fun d => start (invoke d) "\x7b\x7b#keep x\x7d\x7da\x7b\x7b/keep\x7d\x7d"
          (.ofFields [])) need₁
        ((World.build {} (fun _ host => host) [] ()).modifyEngine fun e =>
          { e with directives := [("keep", keep)] }) s₁ w₁ ∧
      Ends (fun d => start (invoke d) "\x7b\x7b#keep x\x7d\x7db\x7b\x7b/keep\x7d\x7d"
          (.ofFields [])) need₂ w₁ s₂ w₂ ∧
      w₂.Wired [] ∧ p.OnlyWrites ∧
      Ends (fun d => execute (invoke d) p) (2 * w₂.sessions.length + 1) w₂ () w' ∧
      w₂.Settled w' [] := by
  intro keep p
  have hp : p.OnlyWrites := fun _ => trivial
  have hbuild : ((World.build {} (fun _ host => host) [] ()).modifyEngine fun e =>
      { e with directives := [("keep", keep)] }).Wired [] :=
    (wired_build {} _ [] ()).modifyEngine (List.forall_mem_singleton.2 fun _ _ _ _ _ => trivial)
  obtain ⟨need₁, s₁, w₁, hfirst, hw₁⟩ := ends_start hbuild _ _
  obtain ⟨need₂, s₂, w₂, hsecond, hw₂⟩ := ends_start hw₁ _ _
  obtain ⟨w', hends, hsettled⟩ := hw₂.settled hp
  exact ⟨need₁, need₂, s₁, s₂, w₁, w₂, w', hfirst, hsecond, hw₂, hp, hends, hsettled⟩

/-- Somebody else holds the nodes while a caller writes: it is reported that a refresh was left out,
although no change was made in a refresh. -/
theorem reports_held_nodes : ∃ w' : World Unit,
    (do
      let _ ← start (invoke 2) "<p>\x7b\x7bn\x7d\x7d</p>" (.ofFields [("n", .number (.int 1))])
      modify fun w => w.modifyEngine fun e => { e with isLocked := true }
      execute (invoke 2) (.set (.root 0) "n" (.number (.int 2)) fun _ => .done) : Run Unit Unit)
      (World.build {} (fun _ host => host) [] ()) = some ((), w') ∧
    w'.history.filterMap Moment.report? = [.reentrantRefresh] ∧
    ∀ later v before, w'.history = later ++ .changed 0 v :: before →
      refreshing [] before = [] := by
  have hrun : ∃ r ∈ (do
      let _ ← start (invoke 2) "<p>\x7b\x7bn\x7d\x7d</p>" (.ofFields [("n", .number (.int 1))])
      modify fun w => w.modifyEngine fun e => { e with isLocked := true }
      execute (invoke 2) (.set (.root 0) "n" (.number (.int 2)) fun _ => .done) : Run Unit Unit)
      (World.build {} (fun _ host => host) [] ()),
      r.2.history.filterMap Moment.report? = [.reentrantRefresh] ∧
      ∀ i < r.2.history.length, ((r.2.history[i]?).bind (Moment.value? 0)).isSome = true →
        refreshing [] (r.2.history.drop (i + 1)) = [] := by decide +kernel
  obtain ⟨r, hrun, hreports, hidle⟩ := hrun
  refine ⟨r.2, hrun, hreports, fun later v before hchanged => ?_⟩
  have hbefore := hidle later.length (by simp [hchanged]) (by simp [hchanged, Moment.value?])
  simpa [hchanged] using hbefore

end World

end LiveMarkup
