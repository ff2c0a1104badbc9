import LiveMarkup.Proofs.Engine.Orderly
import LiveMarkup.Proofs.Engine.Unfolding
import LiveMarkup.Proofs.OrderedMap
import Mathlib.Data.List.Perm.Subperm

/-!
# Engines whose sessions are the only listeners

In a wired world every session listens to its own store, nobody else listens to anything, merges go
through no middleware, and directives only read and write (`World.Wired`). Writes change states and
what is shown, but nothing of the wiring (`World.SameWiring`).

`World.Passes` is what is seen of a world from a later one: the wiring is the same, and the states
are what the moments since then made of them.
-/

namespace LiveMarkup

variable {σ : Type}

/-! ## Programs -/

/-- The program reads and writes, and does nothing else. -/
def Program.OnlyWrites : Program σ → Prop
  | .done => True
  | .ask next => ∀ host, (next host).OnlyWrites
  | .tell _ next => next.OnlyWrites
  | .value _ next => ∀ v, (next v).OnlyWrites
  | .set _ _ _ next => ∀ changed, (next changed).OnlyWrites
  | .setIndex _ _ _ next => ∀ changed, (next changed).OnlyWrites
  | .remove _ _ next => ∀ old, (next old).OnlyWrites
  | .merge _ _ next => ∀ changed, (next changed).OnlyWrites
  | .element _ next => ∀ root, (next root).OnlyWrites
  | .outerHtml _ next => ∀ markup, (next markup).OnlyWrites
  | _ => False

/-! ## Wired worlds -/

/-- Who listens to a store, and what merges go through. -/
def Store.wiring (st : Store σ) : List (Listener σ) × List (Middleware σ) :=
  (st.listeners, st.middleware)

/-- What a session is apart from what it shows. -/
def Session.wiring (session : Session) : StoreId × SubscriptionId × Bool :=
  (session.store, session.subscription, session.isRefreshing)

namespace World

/-- The store of a session. -/
def home (w : World σ) (s : SessionId) : Option StoreId := (w.session? s).map Session.store

/-- The sessions are the only listeners, each on its own store, directives only write, and of the
sessions those of `busy` are being refreshed. -/
structure Wired (w : World σ) (busy : List SessionId) : Prop where
  scripts : ∀ d ∈ w.engine.directives, ∀ arguments content state,
    (d.2.script arguments content state).OnlyWrites
  middleware : ∀ (store : StoreId) st, w.stores[store]? = some st → st.middleware = []
  heard : ∀ s session, w.session? s = some session → ∃ st, w.stores[session.store]? = some st ∧
    st.listeners = [⟨session.subscription, .refresh s⟩]
  unheard : ∀ (store : StoreId) st, w.stores[store]? = some st → (∀ s, w.home s ≠ some store) →
    st.listeners = []
  nodup : busy.Nodup
  mem_busy : ∀ s, s ∈ busy ↔ ∃ session, w.session? s = some session ∧ session.isRefreshing = true
  /-- A session that is opened next has a new name. -/
  known : ∀ s, w.home s ≠ none → s < w.nextSession

/-- The wiring of two worlds is the same. -/
structure SameWiring (w w' : World σ) : Prop where
  isLocked : w'.engine.isLocked = w.engine.isLocked
  directives : w'.engine.directives = w.engine.directives
  store? : ∀ store : StoreId,
    w'.stores[store]?.map Store.wiring = w.stores[store]?.map Store.wiring
  session? : ∀ s, (w'.session? s).map Session.wiring = (w.session? s).map Session.wiring
  count : w'.sessions.length = w.sessions.length
  nextSession : w'.nextSession = w.nextSession

/-- A world is left in the course of some moments. -/
structure Passes (w w' : World σ) (since : List Moment) : Prop extends SameWiring w w' where
  history : w'.history = since ++ w.history
  state? : ∀ store, w'.state? store =
    (since.findSome? (Moment.value? store)).or (w.state? store)

variable {w w' w'' : World σ} {busy : List SessionId} {s : SessionId} {session : Session}
  {store : StoreId} {since since' : List Moment}

theorem sameWiring_of_eq (hlocked : w'.engine.isLocked = w.engine.isLocked)
    (hdirectives : w'.engine.directives = w.engine.directives) (hstores : w'.stores = w.stores)
    (hsessions : w'.sessions = w.sessions) (hnext : w'.nextSession = w.nextSession) :
    w.SameWiring w' := by
  refine ⟨hlocked, hdirectives, fun _ => by rw [hstores], fun s => ?_, by rw [hsessions], hnext⟩
  rw [World.session?, hsessions]
  rfl

theorem SameWiring.trans (h : w.SameWiring w') (h' : w'.SameWiring w'') : w.SameWiring w'' :=
  ⟨h'.isLocked.trans h.isLocked, h'.directives.trans h.directives,
    fun store => (h'.store? store).trans (h.store? store),
    fun s => (h'.session? s).trans (h.session? s), h'.count.trans h.count,
    h'.nextSession.trans h.nextSession⟩

theorem SameWiring.home (h : w.SameWiring w') : w'.home = w.home := by
  funext s
  have hs := congrArg (Option.map Prod.fst) (h.session? s)
  rwa [Option.map_map, Option.map_map] at hs

theorem exists_of_map_eq_some {α β : Type} {f : α → β} {a? : Option α} {b? : Option α} {a : α}
    (h : a?.map f = b?.map f) (ha : a? = some a) : ∃ b, b? = some b ∧ f b = f a := by
  rw [ha, Option.map_some, eq_comm, Option.map_eq_some_iff] at h
  exact h

theorem Wired.of_same (hw : w.Wired busy) (h : w.SameWiring w') : w'.Wired busy := by
  refine ⟨h.directives.symm ▸ hw.scripts, ?_, ?_, ?_, hw.nodup, ?_, ?_⟩
  · intro store st' hst'
    obtain ⟨st, hst, hwiring⟩ := exists_of_map_eq_some (h.store? store) hst'
    exact (congrArg Prod.snd hwiring).symm.trans (hw.middleware store st hst)
  · intro s session' hs'
    obtain ⟨session, hs, hwiring⟩ := exists_of_map_eq_some (h.session? s) hs'
    obtain ⟨st, hst, hlisteners⟩ := hw.heard s session hs
    obtain ⟨st', hst', hwiring'⟩ := exists_of_map_eq_some (h.store? session.store).symm hst
    simp only [Session.wiring, Prod.mk.injEq] at hwiring
    refine ⟨st', hwiring.1 ▸ hst', ?_⟩
    rw [← hwiring.2.1, ← hlisteners]
    exact congrArg Prod.fst hwiring'
  · intro store st' hst' hhome
    obtain ⟨st, hst, hwiring⟩ := exists_of_map_eq_some (h.store? store) hst'
    rw [h.home] at hhome
    exact (congrArg Prod.fst hwiring).symm.trans (hw.unheard store st hst hhome)
  · intro s
    rw [hw.mem_busy]
    constructor
    · rintro ⟨session, hs, hrefreshing⟩
      obtain ⟨session', hs', hwiring⟩ := exists_of_map_eq_some (h.session? s).symm hs
      simp only [Session.wiring, Prod.mk.injEq] at hwiring
      exact ⟨session', hs', hwiring.2.2.trans hrefreshing⟩
    · rintro ⟨session', hs', hrefreshing⟩
      obtain ⟨session, hs, hwiring⟩ := exists_of_map_eq_some (h.session? s) hs'
      simp only [Session.wiring, Prod.mk.injEq] at hwiring
      exact ⟨session, hs, hwiring.2.2.trans hrefreshing⟩
  · rw [h.home, h.nextSession]
    exact hw.known

/-- Two sessions have two stores. -/
theorem Wired.home_injective (hw : w.Wired busy) {s s' : SessionId} {store : StoreId}
    (hs : w.home s = some store) (hs' : w.home s' = some store) : s = s' := by
  obtain ⟨session, h, rfl⟩ := Option.map_eq_some_iff.1 hs
  obtain ⟨session', h', hstore⟩ := Option.map_eq_some_iff.1 hs'
  obtain ⟨st, hst, hlisteners⟩ := hw.heard s session h
  obtain ⟨st', hst', hlisteners'⟩ := hw.heard s' session' h'
  rw [hstore, hst] at hst'
  cases hst'
  rw [hlisteners] at hlisteners'
  simp only [List.cons.injEq, Listener.mk.injEq, Callback.refresh.injEq, and_true] at hlisteners'
  exact hlisteners'.2

theorem home_ne_none_iff : w.home s ≠ none ↔ s ∈ w.sessions.map Prod.fst := by
  rw [home, Ne, Option.map_eq_none_iff, session?, OrderedMap.find?_eq_none_iff, not_not]

theorem Wired.onceEach (hw : w.Wired busy) : OnceEach w.home busy := by
  refine ⟨hw.nodup, fun s hs => ?_⟩
  obtain ⟨session, h, -⟩ := (hw.mem_busy s).1 hs
  simp [home, h]

/-- There are at most as many sessions in a list of them as there are at all. -/
theorem length_le_of_onceEach (h : OnceEach w.home busy) : busy.length ≤ w.sessions.length := by
  have hsubset : busy ⊆ w.sessions.map Prod.fst := fun s hs => home_ne_none_iff.1 (h.2 s hs)
  simpa using (List.subperm_of_subset h.1 hsubset).length_le

/-- While a session is idle, not all are being refreshed. -/
theorem Wired.length_lt (hw : w.Wired busy) (hs : w.home s ≠ none) (hidle : s ∉ busy) :
    busy.length < w.sessions.length :=
  length_le_of_onceEach (hw.onceEach.cons hs hidle)

/-! ## Passing -/

/-- A change of the caller's state, of the files or of what is shown is no matter. -/
theorem passes_of_eq (hlocked : w'.engine.isLocked = w.engine.isLocked)
    (hdirectives : w'.engine.directives = w.engine.directives) (hstores : w'.stores = w.stores)
    (hsessions : w'.sessions = w.sessions) (hnext : w'.nextSession = w.nextSession)
    (hhistory : w'.history = w.history) : w.Passes w' [] := by
  refine ⟨sameWiring_of_eq hlocked hdirectives hstores hsessions hnext, hhistory, fun store => ?_⟩
  rw [World.state?, hstores]
  rfl

theorem Passes.refl (w : World σ) : w.Passes w [] := passes_of_eq rfl rfl rfl rfl rfl rfl

theorem Passes.trans (h : w.Passes w' since) (h' : w'.Passes w'' since') :
    w.Passes w'' (since' ++ since) := by
  refine ⟨h.toSameWiring.trans h'.toSameWiring, ?_, fun store => ?_⟩
  · rw [h'.history, h.history, List.append_assoc]
  · rw [h'.state?, h.state?, List.findSome?_append, Option.or_assoc]

theorem passes_record (w : World σ) {m : Moment} (hm : ∀ store, m.value? store = none) :
    w.Passes (w.record m) [m] := by
  refine ⟨sameWiring_of_eq rfl rfl rfl rfl rfl, rfl, fun store => ?_⟩
  rw [List.findSome?_singleton, hm, Option.none_or]
  rfl

/-- The world right after a store has become a value. -/
def change (w : World σ) (store : StoreId) (v : OrderedValue) : World σ :=
  (w.modifyStore store fun st => { st with value := v }).record (.changed store v)

theorem passes_changed {v old : OrderedValue} (h : w.state? store = some old) :
    w.Passes (w.change store v) [.changed store v] := by
  have hget (store' : StoreId) : (w.change store v).stores[store']? =
      (fun st => if store = store' then { st with value := v } else st) <$> w.stores[store']? :=
    List.getElem?_modify ..
  refine ⟨⟨rfl, rfl, fun store' => ?_, fun _ => rfl, rfl, rfl⟩, rfl, fun store' => ?_⟩
  · rw [hget]
    cases w.stores[store']? with
    | none => rfl
    | some st =>
      simp only [Option.map_eq_map, Option.map_some]
      split <;> rfl
  · rw [World.state?, hget, List.findSome?_singleton, Moment.value?]
    split
    · next he =>
      subst he
      rw [World.state?, Option.map_eq_some_iff] at h
      obtain ⟨st, hst, -⟩ := h
      simp [hst]
    · next he =>
      simp [World.state?]

/-! ## Turning a session on and off -/

theorem length_modifySession (w : World σ) (s : SessionId) (f : Session → Session) :
    (w.modifySession s f).sessions.length = w.sessions.length := by
  rw [modifySession]
  split
  · next session hs =>
    refine OrderedMap.length_put_of_mem ?_
    by_contra hno
    rw [← OrderedMap.find?_eq_none_iff] at hno
    exact absurd (hs.symm.trans hno) (by simp)
  · rfl

theorem history_modifySession (w : World σ) (s : SessionId) (f : Session → Session) :
    (w.modifySession s f).history = w.history := by
  rw [modifySession]
  split <;> rfl

theorem sameWiring_modifySession (w : World σ) (s : SessionId) {f : Session → Session}
    (hf : ∀ session, (f session).wiring = session.wiring) : w.SameWiring (w.modifySession s f) := by
  have hturns := w.turns_modifySession s f
  refine ⟨hturns.isLocked, hturns.directives, fun _ => by rw [hturns.stores], fun other => ?_,
    w.length_modifySession s f, hturns.nextSession⟩
  rw [hturns.session?]
  split
  · next he =>
    rw [he, Option.map_map]
    exact congrArg (Option.map · _) (funext hf)
  · rfl

theorem passes_modifySession (w : World σ) (s : SessionId) {f : Session → Session}
    (hf : ∀ session, (f session).wiring = session.wiring) : w.Passes (w.modifySession s f) [] := by
  refine ⟨w.sameWiring_modifySession s hf, w.history_modifySession s f, fun store => ?_⟩
  rw [World.state?, (w.turns_modifySession s f).stores]
  rfl

/-- A session's refresh begins. -/
def beginRefresh (w : World σ) (s : SessionId) : World σ :=
  (w.modifySession s fun session => { session with isRefreshing := true }).record (.began s)

/-- A session's refresh ends. -/
def endRefresh (w : World σ) (s : SessionId) : World σ :=
  (w.modifySession s fun session => { session with isRefreshing := false }).record (.ended s)

theorem session?_beginRefresh (w : World σ) (s other : SessionId) :
    (w.beginRefresh s).session? other =
      if other = s then (w.session? s).map fun session => { session with isRefreshing := true }
      else w.session? other :=
  (w.turns_modifySession s fun session => { session with isRefreshing := true }).session? other

theorem stores_beginRefresh (w : World σ) (s : SessionId) : (w.beginRefresh s).stores = w.stores :=
  (w.turns_modifySession s _).stores

theorem isLocked_beginRefresh (w : World σ) (s : SessionId) :
    (w.beginRefresh s).engine.isLocked = w.engine.isLocked :=
  (w.turns_modifySession s _).isLocked

theorem session?_endRefresh (w : World σ) (s other : SessionId) :
    (w.endRefresh s).session? other =
      if other = s then (w.session? s).map fun session => { session with isRefreshing := false }
      else w.session? other :=
  (w.turns_modifySession s fun session => { session with isRefreshing := false }).session? other

theorem stores_endRefresh (w : World σ) (s : SessionId) : (w.endRefresh s).stores = w.stores :=
  (w.turns_modifySession s _).stores

theorem home_beginRefresh (w : World σ) (s : SessionId) : (w.beginRefresh s).home = w.home := by
  funext other
  rw [home, session?_beginRefresh, home]
  split
  · next he =>
    rw [he, Option.map_map]
    rfl
  · rfl

theorem Wired.beginRefresh (hw : w.Wired busy) (hs : w.home s ≠ none) (hidle : s ∉ busy) :
    (w.beginRefresh s).Wired (s :: busy) := by
  have hturns := w.turns_modifySession s fun session => { session with isRefreshing := true }
  refine ⟨hturns.directives.symm ▸ hw.scripts, (w.stores_beginRefresh s).symm ▸ hw.middleware, ?_,
    ?_, List.nodup_cons.2 ⟨hidle, hw.nodup⟩, ?_, ?_⟩
  · intro other session hother
    rw [stores_beginRefresh]
    rw [session?_beginRefresh] at hother
    split at hother
    · next he =>
      subst he
      obtain ⟨session, h, rfl⟩ := Option.map_eq_some_iff.1 hother
      exact hw.heard other session h
    · exact hw.heard other session hother
  · rw [stores_beginRefresh, home_beginRefresh]
    exact hw.unheard
  · intro other
    rw [List.mem_cons, session?_beginRefresh]
    split
    · next he =>
      rw [Ne, home, Option.map_eq_none_iff] at hs
      obtain ⟨session, h⟩ := Option.ne_none_iff_exists'.1 hs
      simp [he, h]
    · next he => simp [he, hw.mem_busy]
  · rw [home_beginRefresh]
    exact fun other h => hturns.nextSession.symm ▸ hw.known other h

/-- The wiring after a refresh, if nothing in it changed the wiring. -/
theorem SameWiring.refresh (hs : w.session? s = some session)
    (hidle : session.isRefreshing = false) (h : (w.beginRefresh s).SameWiring w') :
    w.SameWiring (w'.endRefresh s) := by
  have hbegin := w.turns_modifySession s fun session => { session with isRefreshing := true }
  have hend := w'.turns_modifySession s fun session => { session with isRefreshing := false }
  refine ⟨hend.isLocked.trans (h.isLocked.trans hbegin.isLocked),
    hend.directives.trans (h.directives.trans hbegin.directives), fun store => ?_,
    fun other => ?_, ?_, hend.nextSession.trans (h.nextSession.trans hbegin.nextSession)⟩
  · rw [stores_endRefresh, h.store?, stores_beginRefresh]
  · have hpassed := h.session? other
    rw [session?_beginRefresh] at hpassed
    rw [session?_endRefresh]
    split
    · next he =>
      subst he
      rw [if_pos rfl, hs] at hpassed
      obtain ⟨session', hs', hwiring⟩ := Option.map_eq_some_iff.1 hpassed
      simp only [Session.wiring, Prod.mk.injEq] at hwiring
      rw [hs', hs, Option.map_some, Option.map_some, Option.map_some]
      simp only [Session.wiring, hwiring.1, hwiring.2.1, hidle]
    · next he => rwa [if_neg he] at hpassed
  · exact (w'.length_modifySession s _).trans (h.count.trans (w.length_modifySession s _))

/-- What happens in the course of a refresh, with its beginning and its end. -/
theorem Passes.refresh (hs : w.session? s = some session) (hidle : session.isRefreshing = false)
    (h : (w.beginRefresh s).Passes w' since) :
    w.Passes (w'.endRefresh s) (.ended s :: (since ++ [.began s])) := by
  refine ⟨h.toSameWiring.refresh hs hidle, ?_, fun store => ?_⟩
  · rw [endRefresh, record, history_modifySession, h.history, beginRefresh, record,
      history_modifySession, List.cons_append, List.append_assoc]
    rfl
  · have hbegan : ([.began s] : List Moment).findSome? (Moment.value? store) = none := rfl
    rw [World.state?, stores_endRefresh, ← World.state?, h.state?, World.state?,
      stores_beginRefresh, ← World.state?, List.findSome?_cons_of_isNone rfl,
      List.findSome?_append, hbegan, Option.or_none]

end World

end LiveMarkup
