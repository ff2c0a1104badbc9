import LiveMarkup.Proofs.Engine.Opening
import Mathlib.Logic.Relation

/-!
# Sessions show the latest state

A caller sets up an engine (`World.Prepared`), opens a session, and then does whatever he likes
(`World.Operates`), as long as the directives stay what they are. However often he does so, the
session shows what its template stands for in its state, as if it had been rendered from the start.
In a state in which the template stands for nothing, it shows what it showed in the latest state in
which it stood for something (`World.Prepared.showsLatest`).
-/

namespace LiveMarkup

open Relation

variable {σ : Type}

namespace World

/-! ## What a caller does -/

/-- A caller runs a program, opens or updates a session, or has merges go through a middleware. -/
inductive Operates [Html.Tokenizer] : World σ → World σ → Prop
  | execute {w w' : World σ} (depth : Nat) (p : Program σ) (hp : p.Quiet)
      (h : Run.execute (Run.invoke depth) p w = some ((), w')) : Operates w w'
  | start {w w' : World σ} (depth : Nat) (template : String) (state : State) (s : SessionId)
      (h : Run.start (Run.invoke depth) template state w = some (s, w')) : Operates w w'
  | update {w w' : World σ} (depth : Nat) (s : SessionId) (entries : State)
      (h : Run.update (Run.invoke depth) s entries w = some ((), w')) : Operates w w'
  | addMiddleware {w w' : World σ} (store : StoreId) (layer : Middleware σ)
      (hlayer : ∀ next old, (layer.script next old).Quiet)
      (h : Run.addMiddleware store layer w = some ((), w')) : Operates w w'

/-- What a caller has before he opens a session: an engine that was built, directives that do
nothing but expand, and sessions that were opened and used before. -/
inductive Prepared [Html.Tokenizer] : World σ → Prop
  | build (options : EngineOptions σ) (log : Diagnostic → σ → σ) (files : FileTree) (host : σ) :
      Prepared (World.build options log files host)
  | addDirective {w w' : World σ} (hw : Prepared w) (name : String)
      (expand : List Char → List Char → Fields → List Char)
      (h : Run.addDirective name ⟨expand, fun _ _ _ => .done⟩ w = some ((), w')) : Prepared w'
  | operate {w w₁ w' : World σ} (hw : Prepared w) (depth : Nat) (template : String) (state : State)
      (s : SessionId) (h : Run.start (Run.invoke depth) template state w = some (s, w₁))
      (hrun : ReflTransGen Operates w₁ w') : Prepared w'

/-- What a session shows is alike to a tree; if there is none, it shows nothing. -/
def Mounts (w : World σ) (s : SessionId) : Option (Tree NodeId) → Prop
  | some t => ∃ root made, w.element? s = some root ∧ w.engine.dom.tree? root = some made ∧
      made.Alike t
  | none => w.element? s = none

/-- A session that was opened in an earlier world shows what its template stands for in its state,
up to the order of attributes. If that is nothing, it shows what the template stood for in the
latest state since then for which it stood for anything. -/
def ShowsLatest [Html.Tokenizer] (w₁ w : World σ) (s : SessionId) (template : String) : Prop :=
  ∃ store since earlier,
    (w₁.session? s).map Session.store = some store ∧ (w.session? s).map Session.store = some store ∧
    w.history = since ++ w₁.history ∧
    since.filterMap (Moment.state? store) ++ [w₁.snapshot (.root store)] =
      w.snapshot (.root store) :: earlier ∧
    (∀ t, w.engine.rendering? template (w.snapshot (.root store)) = some t → w.Mounts s (some t)) ∧
    (w.engine.rendering? template (w.snapshot (.root store)) = none →
      w.Mounts s (earlier.findSome? (w.engine.rendering? template)))

variable {w : World σ} {s : SessionId} {t : Tree NodeId}

theorem Orderly.element?_eq (hw : w.Orderly) (s : SessionId) :
    w.element? s = (w.session? s).bind Session.shown := by
  rw [element?]
  cases hs : w.session? s with
  | none => rfl
  | some session =>
    rw [Option.bind_some, hw.idle s session hs, if_neg Bool.false_ne_true, Option.bind_some]

theorem Shows.tree?_eq (h : w.Shows s t) : w.engine.dom.tree? t.label = some t :=
  h.hosts.tree?_eq h.nodup

theorem orderly_build (options : EngineOptions σ) (log : Diagnostic → σ → σ) (files : FileTree)
    (host : σ) : (build options log files host).Orderly where
  sound := Dom.sound_empty
  unlocked := rfl
  inert := nofun
  listeners := nofun
  middleware := nofun
  idle := nofun
  known := nofun
  shows := nofun
  apart _ _ _ _ _ ht := nomatch ht.shown

theorem Orderly.addDirective (hw : w.Orderly) (name : String)
    (expand : List Char → List Char → Fields → List Char) :
    (w.modifyEngine fun e => { e with
      directives := OrderedMap.put e.directives name ⟨expand, fun _ _ _ => .done⟩ }).Orderly := by
  refine hw.of_view ⟨rfl, fun _ => rfl⟩ rfl rfl (fun d hd => ?_) hw.listeners hw.middleware
  rcases OrderedMap.eq_or_mem_of_mem_put hd with rfl | hd
  · exact fun _ _ _ => rfl
  · exact hw.inert d hd

end World

namespace Watch

open Run

variable [Html.Tokenizer] {k : Watch} {w w' : World σ} {call : Callback σ → Run σ Unit}

theorem keeps_update (hc : k.Faithful call) (s : SessionId) (entries : State) :
    Keeps (k.Tracks false) (Run.update call s entries) := by
  unfold Run.update
  refine .of_get fun w hw => ?_
  split
  · exact .of_pure fun _ h => h ▸ hw
  · exact ((hc.upholds.merge _ entries).here hw).bind fun _ => keeps_refresh hc.done s

theorem keeps_start (hc : k.Faithful call) (template : String) (state : State) :
    Keeps (k.Tracks false) (Run.start call template state) := by
  refine .of_forall fun w hw => ?_
  refine (ensures_start hc.done hw.orderly template state).mono (fun _ h => h) ?_
  rintro s w' ⟨rfl, w₁, old?, new?, hfounds, hr⟩
  obtain ⟨session, hs, -, -⟩ := hw.session
  have hne : k.session ≠ w.nextSession := Nat.ne_of_lt (hw.orderly.known k.session session hs)
  refine (hw.founds hfounds).redrawn ?_ hne hr.shows hr.toRedrawn
  rw [hfounds.session?, if_pos rfl]

theorem keeps_addMiddleware (store : StoreId) {layer : Middleware σ}
    (hlayer : ∀ next old, (layer.script next old).Quiet) :
    Keeps (k.Tracks false) (Run.addMiddleware store layer) := by
  refine .of_modify fun w hw => ?_
  refine hw.modifyStore (fun _ st => ⟨rfl, fun l rest hl _ => ⟨rest, hl⟩⟩) (fun _ hl => hl)
    fun st hm => ?_
  exact List.forall_mem_append.2 ⟨hm, List.forall_mem_singleton.2 hlayer⟩

/-- Whatever a caller does, the session is kept track of. -/
theorem Tracks.operates (hw : k.Tracks false w) (h : w.Operates w') : k.Tracks false w' := by
  cases h with
  | execute depth p hp h => exact (faithful_invoke k depth).keeps_execute hp w () w' hw h
  | start depth template state s h =>
    exact keeps_start (faithful_invoke k depth) template state w s w' hw h
  | update depth s entries h =>
    exact keeps_update (faithful_invoke k depth) s entries w () w' hw h
  | addMiddleware store layer hlayer h => exact keeps_addMiddleware store hlayer w () w' hw h

/-- However often he does so, too. -/
theorem Tracks.run (hw : k.Tracks false w) (h : ReflTransGen World.Operates w w') :
    k.Tracks false w' := by
  induction h with
  | refl => exact hw
  | tail _ hstep ih => exact ih.operates hstep

/-- A session that is kept track of shows the latest state. -/
theorem Tracks.mounts {states : List Fields} (hw : k.Tracks false w) (h : k.Displays w states) :
    w.Mounts k.session (states.findSome? k.rendering?) := by
  rw [Displays] at h
  cases hwanted : states.findSome? k.rendering? with
  | some t =>
    rw [hwanted] at h
    obtain ⟨made, hmade, halike⟩ := h
    exact ⟨made.label, made, (hw.orderly.element?_eq _).trans hmade.shown, hmade.tree?_eq, halike⟩
  | none =>
    rw [hwanted] at h
    exact (hw.orderly.element?_eq _).trans h

end Watch

namespace World

variable {w w' w₁ : World σ} {s : SessionId} {depth : Nat} {template : String} {state : State}

theorem Orderly.exists_tracks [Html.Tokenizer] (hw : w.Orderly)
    (h : Run.start (Run.invoke depth) template state w = some (s, w₁)) :
    ∃ store, Watch.Tracks ⟨s, store, template, w₁.engine.settings, w₁.history,
      w₁.snapshot (.root store)⟩ false w₁ := by
  obtain ⟨rfl, w', old?, new?, hfounds, hr⟩ :=
    Run.ensures_start (Watch.harmless_invoke_done depth) hw template state w s w₁ rfl h
  exact ⟨_, Watch.tracks_of_founds hw hfounds hr⟩

theorem Prepared.orderly [Html.Tokenizer] (hw : w.Prepared) : w.Orderly := by
  induction hw with
  | build options log files host => exact orderly_build options log files host
  | addDirective hw name expand h ih =>
    cases h
    exact ih.addDirective name expand
  | operate hw depth template state s h hrun ih =>
    obtain ⟨store, htracks⟩ := ih.exists_tracks h
    exact (htracks.run hrun).orderly

/-- Whatever a caller does with an engine that he has set up, its sessions show the latest state. -/
theorem Prepared.showsLatest [Html.Tokenizer] (hw : w.Prepared)
    (hstart : Run.start (Run.invoke depth) template state w = some (s, w₁))
    (hrun : ReflTransGen Operates w₁ w') : w₁.ShowsLatest w' s template := by
  obtain ⟨store, htracks⟩ := hw.orderly.exists_tracks hstart
  have hw' := htracks.run hrun
  obtain ⟨session₁, hs₁, hstore₁, -⟩ := htracks.session
  obtain ⟨session, hs, hstore, -⟩ := hw'.session
  obtain ⟨since, earlier, hhistory, hstates, hdisplays⟩ := hw'.shows
  have hmounts := hw'.mounts hdisplays
  have hrendering : w'.engine.rendering? template = Watch.rendering? ⟨s, store, template,
      w₁.engine.settings, w₁.history, w₁.snapshot (.root store)⟩ := by
    funext state
    rw [Engine.rendering?, hw'.settings, Watch.rendering?]
  rw [← hrendering, if_neg Bool.false_ne_true, List.findSome?_cons] at hmounts
  refine ⟨store, since, earlier, by rw [hs₁, Option.map_some, hstore₁],
    by rw [hs, Option.map_some, hstore], hhistory, hstates, ?_, ?_⟩
  · intro t ht
    rwa [ht] at hmounts
  · intro hnone
    rwa [hnone] at hmounts

theorem Prepared.showsLatest_of_set : ∃ (s : SessionId) (w₁ w' : World Unit),
    Run.start (Run.invoke 2) "<p>\x7b\x7bn\x7d\x7d</p>" (.ofFields [("n", .number (.int 1))])
      (World.build {} (fun _ host => host) [] ()) = some (s, w₁) ∧
    Run.execute (Run.invoke 2) (.set (.root 0) "n" (.number (.int 2)) fun _ => .done) w₁ =
      some ((), w') ∧
    w₁.ShowsLatest w' s "<p>\x7b\x7bn\x7d\x7d</p>" := by
  have hrun : ((Run.start (Run.invoke 2) "<p>\x7b\x7bn\x7d\x7d</p>"
        (.ofFields [("n", .number (.int 1))]) >>=
      fun _ => Run.execute (Run.invoke 2) (.set (.root 0) "n" (.number (.int 2)) fun _ => .done))
      (World.build {} (fun _ host => host) [] ())).isSome = true := by decide +kernel
  obtain ⟨⟨_, w'⟩, hrun⟩ := Option.isSome_iff_exists.1 hrun
  obtain ⟨s, w₁, hstart, hset⟩ := Run.bind_eq_some_iff.1 hrun
  refine ⟨s, w₁, w', hstart, hset, ?_⟩
  have hquiet : Program.Quiet (.set (.root 0) "n" (.number (.int 2)) fun _ => .done :
    Program Unit) := fun _ => trivial
  exact (Prepared.build {} _ [] ()).showsLatest hstart (.single (.execute 2 _ hquiet hset))

end World

end LiveMarkup
