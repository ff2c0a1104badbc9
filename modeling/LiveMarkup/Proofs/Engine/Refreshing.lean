import LiveMarkup.Proofs.Dom.Redrawing
import LiveMarkup.Proofs.Engine.Settling

/-!
# Refreshing one session among others

Where directives write no state and have nothing rendered (`Program.WritesNothing`), a refresh of a
session comes to an end, and all that it changes of the nodes is the tree of that session
(`World.refreshed_refresh`). What happens beside it, such as diagnostics or the commands of
directives, leaves the scene as it is (`Run.LeavesScene`).
-/

namespace LiveMarkup

variable {σ α β : Type}

/-- The program writes no state and has nothing rendered. -/
def Program.WritesNothing : Program σ → Prop
  | .done => True
  | .ask next => ∀ host, (next host).WritesNothing
  | .tell _ next => next.WritesNothing
  | .value _ next => ∀ v, (next v).WritesNothing
  | .subscribe _ _ next => ∀ id, (next id).WritesNothing
  | .unsubscribe _ _ next => ∀ ended, (next ended).WritesNothing
  | .addDirective _ _ _ next => next.WritesNothing
  | .create _ next => ∀ store, (next store).WritesNothing
  | .element _ next => ∀ root, (next root).WritesNothing
  | .outerHtml _ next => ∀ markup, (next markup).WritesNothing
  | _ => False

namespace World

/-- The markup of a session's template in its state. -/
def markup (w : World σ) (session : Session) : List Char :=
  (Template.compile w.engine.settings session.template.toList
    (w.snapshot (.root session.store))).text

/-- The nodes and the sessions are the same, and so is whether somebody else holds the nodes. -/
structure SameScene (w w' : World σ) : Prop extends SameView w w' where
  isLocked : w'.engine.isLocked = w.engine.isLocked

variable {w w' w'' : World σ}

theorem SameScene.of_eq (hdom : w'.engine.dom = w.engine.dom) (hsessions : w'.sessions = w.sessions)
    (hlocked : w'.engine.isLocked = w.engine.isLocked) : w.SameScene w' :=
  ⟨⟨hdom, fun s => by rw [session?, hsessions]; rfl⟩, hlocked⟩

theorem SameScene.refl (w : World σ) : w.SameScene w := .of_eq rfl rfl rfl

theorem SameScene.trans (h : w.SameScene w') (h' : w'.SameScene w'') : w.SameScene w'' :=
  ⟨h.toSameView.trans h'.toSameView, h'.isLocked.trans h.isLocked⟩

/-- A session was refreshed: it may show something else, in place of what it showed. -/
structure Refreshed [Html.Tokenizer] (w w' : World σ) (s : SessionId) (session session' : Session) :
    Prop where
  session? : w'.session? s = some session'
  others : ∀ other, other ≠ s → w'.session? other = w.session? other
  dom : Dom.RedrawsOnly w.engine.dom w'.engine.dom session.shown session'.shown
    (w.engine.dom.parseFragment (trim (w.markup session))).2

end World

namespace Run

variable {need : ℕ} {w w' : World σ} {s : SessionId} {session : Session}

/-! ## What leaves the scene alone -/

/-- The run ends in the same way from some depth on, and leaves the scene as it is. -/
def LeavesScene (need : ℕ) (m : ℕ → Run σ α) (w : World σ) : Prop :=
  ∃ a w', Ends m need w a w' ∧ w.SameScene w'

namespace LeavesScene

theorem bind {m : ℕ → Run σ α} {f : ℕ → α → Run σ β} (h : LeavesScene need m w)
    (h' : ∀ a w, LeavesScene need (fun d => f d a) w) :
    LeavesScene need (fun d => m d >>= f d) w := by
  obtain ⟨a, w', hm, hsame⟩ := h
  obtain ⟨b, w'', hf, hsame'⟩ := h' a w'
  exact ⟨b, w'', hm.bind hf, hsame.trans hsame'⟩

theorem of_pure (a : α) : LeavesScene need (fun _ => (pure a : Run σ α)) w :=
  ⟨a, w, fun _ _ => rfl, .refl w⟩

theorem of_get {f : ℕ → World σ → Run σ α} (h : LeavesScene need (fun d => f d w) w) :
    LeavesScene need (fun d => get >>= f d) w :=
  h

theorem of_modifyGet {g : World σ → α × World σ} (h : w.SameScene (g w).2) :
    LeavesScene need (fun _ => modifyGet g) w :=
  ⟨(g w).1, (g w).2, fun _ _ => rfl, h⟩

end LeavesScene

theorem leavesScene_emit (d : Diagnostic) : LeavesScene need (fun _ => emit d) w :=
  .of_modifyGet (.of_eq rfl rfl rfl)

theorem leavesScene_subscribe (store : StoreId) (callback : Callback σ) :
    LeavesScene need (fun _ => subscribe store callback) w := by
  refine .of_get ?_
  split
  · exact .of_pure 0
  · exact ⟨_, _, fun _ _ => rfl, .of_eq rfl rfl rfl⟩

theorem leavesScene_unsubscribe (store : StoreId) (id : SubscriptionId) :
    LeavesScene need (fun _ => unsubscribe store id) w := by
  refine .of_get ?_
  split
  · exact ⟨_, _, fun _ _ => rfl, .of_eq rfl rfl rfl⟩
  · exact .of_pure false

theorem leavesScene_execute [Html.Tokenizer] {p : Program σ} (hp : p.WritesNothing) (w : World σ) :
    LeavesScene need (fun d => execute (invoke d) p) w := by
  induction p generalizing w with
  | done => exact .of_pure ()
  | ask next ih => exact .of_get (ih _ (hp w.host) w)
  | tell f next ih => exact .bind (.of_modifyGet (.of_eq rfl rfl rfl)) fun _ => ih hp
  | value h next ih => exact .of_get (ih _ (hp _) w)
  | subscribe store listener next _ ih =>
    exact .bind (leavesScene_subscribe store _) fun id => ih id (hp id)
  | unsubscribe store id next ih =>
    exact .bind (leavesScene_unsubscribe store id) fun ended => ih ended (hp ended)
  | addDirective name expand script next _ ih =>
    exact .bind (.of_modifyGet (.of_eq rfl rfl rfl)) fun _ => ih hp
  | create state next ih =>
    exact .bind (.of_modifyGet (.of_eq rfl rfl rfl)) fun store => ih store (hp store)
  | element s next ih => exact .of_get (ih _ (hp _) w)
  | outerHtml s next ih => exact .of_get (ih _ (hp _) w)
  | _ => exact hp.elim

theorem leavesScene_invoke [Html.Tokenizer] {p : Program σ} (hp : p.WritesNothing) (w : World σ) :
    LeavesScene 1 (fun d => invoke d (.script p)) w := by
  have hexecute : LeavesScene 0 (fun d => execute (invoke d) p) w := leavesScene_execute hp w
  obtain ⟨_, w', h, hsame⟩ := hexecute
  exact ⟨(), w', h.of_succ fun _ => rfl, hsame⟩

theorem leavesScene_replay [Html.Tokenizer] {directives : OrderedMap String (ActiveDirective σ)}
    (hd : ∀ d ∈ directives, ∀ arguments content state,
      (d.2.script arguments content state).WritesNothing)
    (events : List Template.Event) (w : World σ) :
    LeavesScene 1 (fun d => replay (invoke d) directives events) w := by
  induction events generalizing w with
  | nil => exact .of_pure ()
  | cons e rest ih =>
    cases e with
    | reported d => exact .bind (leavesScene_emit d) fun _ => ih
    | expanded name arguments content state =>
      simp only [replay]
      split
      · next directive hf =>
        have hscript := hd _ (OrderedMap.mem_of_find? hf) arguments content state
        exact .bind (leavesScene_invoke hscript w) fun _ => ih
      · exact ih w

/-! ## Refreshing -/

theorem exists_compile [Html.Tokenizer] (hd : ∀ d ∈ w.engine.directives, ∀ arguments content state,
      (d.2.script arguments content state).WritesNothing) (template : String) (state : Fields) :
    ∃ w', Ends (fun d => compile (invoke d) template state) 1 w
        (Template.compile w.engine.settings template.toList state).text w' ∧ w.SameScene w' := by
  obtain ⟨_, w', h, hsame⟩ := leavesScene_replay hd
    (Template.compile w.engine.settings template.toList state).events w
  exact ⟨w', h.bind (f := fun _ _ => pure _) fun _ _ => rfl, hsame⟩

/-- The nodes and what a session shows are those of a display. -/
structure Displays (w w' : World σ) (s : SessionId) (dom : Dom) (f : Session → Session) : Prop where
  dom : w'.engine.dom = dom
  session? : ∀ other, w'.session? other =
    if other = s then (w.session? s).map f else w.session? other

theorem exists_present (s : SessionId) (display : Display) (w : World σ) :
    ∃ w', present s display w = some ((), w') ∧
      Displays w w' s display.dom fun session => { session with shown := display.root? } := by
  have hlast (w : World σ) : Displays w ((w.modifyEngine fun e =>
      { e with dom := display.dom }).modifySession s fun session =>
        { session with shown := display.root? }) s display.dom
      fun session => { session with shown := display.root? } :=
    ⟨(World.turns_modifySession _ s _).dom, fun other => World.session?_modifySession _ s other _⟩
  cases hd : display.defect? with
  | none => exact ⟨_, by rw [present, hd]; rfl, hlast w⟩
  | some d =>
    exact ⟨_, by rw [present, hd]; rfl, (hlast (w.emit d)).dom, (hlast (w.emit d)).session?⟩

/-- What is compiled is shown, unless somebody else holds the nodes. -/
theorem exists_show (s : SessionId) (display : Dom → Display) (w : World σ) :
    ∃ root? w', (∀ next : Option NodeId → Run σ (Option NodeId),
      (if w.engine.isLocked = true then do
        emit .reentrantRefresh
        let root? ← pure none
        next root?
      else do
        present s (display w.engine.dom)
        let root? ← pure (display w.engine.dom).root?
        next root?) w = next root? w') ∧
      (Displays w w' s w.engine.dom id ∨ Displays w w' s (display w.engine.dom).dom
        fun session => { session with shown := (display w.engine.dom).root? }) := by
  cases w.engine.isLocked with
  | true =>
    refine ⟨none, w.emit .reentrantRefresh, fun next => rfl, .inl ⟨rfl, fun other => ?_⟩⟩
    rw [Option.map_id_fun, id]
    split
    · next he =>
      rw [he]
      rfl
    · rfl
  | false =>
    obtain ⟨w', hpresent, hdisplays⟩ := exists_present s (display w.engine.dom) w
    exact ⟨(display w.engine.dom).root?, w', fun next => congrArg (Option.bind · _) hpresent,
      .inr hdisplays⟩

/-- What was displayed while a session was being refreshed is what it shows behind the refresh. -/
theorem Displays.refresh {w₂ w₃ : World σ} {dom : Dom} {f : Session → Session}
    (hs : w.session? s = some session) (hidle : session.isRefreshing = false)
    (hsame : (w.beginRefresh s).SameScene w₂) (h : Displays w₂ w₃ s dom f)
    (hf : ∀ session : Session, { f { session with isRefreshing := true } with
      isRefreshing := false } = f { session with isRefreshing := false }) :
    Displays w (w₃.endRefresh s) s dom f := by
  refine ⟨(w₃.turns_modifySession s _).dom.trans h.dom, fun other => ?_⟩
  rw [World.session?_endRefresh, h.session?, if_pos rfl, h.session?, hsame.session?,
    World.session?_beginRefresh, if_pos rfl, hs, hsame.session?, World.session?_beginRefresh]
  split
  · have hfinal := hf session
    rw [show { session with isRefreshing := false } = session by rw [← hidle]] at hfinal
    exact congrArg some hfinal
  · rfl

/-- The rendering of an idle session ends. It leaves the nodes as they are, or shows what the
display makes of the compiled template. -/
theorem exists_render [Html.Tokenizer] (hd : ∀ d ∈ w.engine.directives, ∀ arguments content state,
      (d.2.script arguments content state).WritesNothing)
    (hs : w.session? s = some session) (hidle : session.isRefreshing = false)
    (display : Dom → Option NodeId → List Char → Display) :
    ∃ root? w', Ends (fun d => render (invoke d) display s) 1 w root? w' ∧
      (Displays w w' s w.engine.dom id ∨
        let shown := display w.engine.dom session.shown (w.markup session)
        Displays w w' s shown.dom fun session => { session with shown := shown.root? }) := by
  have hbegin := w.turns_modifySession s fun session => { session with isRefreshing := true }
  obtain ⟨w₂, hcompile, hsame⟩ := exists_compile (w := w.beginRefresh s)
    (hbegin.directives.symm ▸ hd) session.template (w.snapshot (.root session.store))
  rw [show (w.beginRefresh s).engine.settings = w.engine.settings from hbegin.settings] at hcompile
  obtain ⟨root?, w₃, hshow, hdisplays⟩ :=
    exists_show s (fun dom => display dom session.shown (w.markup session)) w₂
  have hdom : w₂.engine.dom = w.engine.dom := hsame.dom.trans hbegin.dom
  refine ⟨root?, w₃.endRefresh s, fun depth hdepth => ?_, ?_⟩
  · unfold render
    refine bind_eq_some_iff.2 ⟨w, w, rfl, ?_⟩
    rw [hs]
    dsimp only
    rw [if_neg (by simp [hidle])]
    refine bind_eq_some_iff.2 ⟨(), w.beginRefresh s, rfl, ?_⟩
    refine bind_eq_some_iff.2 ⟨w.markup session, w₂, hcompile depth hdepth, ?_⟩
    refine bind_eq_some_iff.2 ⟨w₂, w₂, rfl, ?_⟩
    exact (hshow _).trans rfl
  · rw [hdom] at hdisplays
    exact hdisplays.imp (.refresh hs hidle hsame · fun _ => rfl)
      (.refresh hs hidle hsame · fun _ => rfl)

end Run

/-! ## A refresh among other trees -/

namespace World

variable {w : World σ} {s : SessionId} {session : Session}

open Run

/-- However many sessions there are, a refresh of one of them changes no node outside of the tree
that it shows, and leaves no node behind that is not in the tree that it shows next. -/
theorem refreshed_refresh [Html.Tokenizer] (hforest : w.engine.dom.IsForest)
    (hd : ∀ d ∈ w.engine.directives, ∀ arguments content state,
      (d.2.script arguments content state).WritesNothing)
    (hs : w.session? s = some session)
    (hroot : ∀ root, session.shown = some root →
      w.engine.dom.contains root = true ∧ w.engine.dom.parent? root = none) :
    ∃ w' session', Ends (fun d => refresh (invoke d) s) 1 w () w' ∧
      w.Refreshed w' s session session' := by
  have hkept : Dom.RedrawsOnly w.engine.dom w.engine.dom session.shown session.shown
      (w.engine.dom.parseFragment (trim (w.markup session))).2 := hforest.redrawsOnly_self hroot _
  have hends {root? : Option NodeId} {w' : World σ}
      (h : Ends (fun d => render (invoke d) (fun dom shown markup => dom.refresh shown markup) s) 1
        w root? w') : Ends (fun d => refresh (invoke d) s) 1 w () w' :=
    h.bind (f := fun _ _ => pure ()) fun _ _ => rfl
  cases hidle : session.isRefreshing with
  | true =>
    have hleft : Ends (fun d => render (invoke d) (fun dom shown markup => dom.refresh shown markup)
        s) 1 w none (w.emit .reentrantRefresh) := by
      intro depth _
      unfold render
      refine bind_eq_some_iff.2 ⟨w, w, rfl, ?_⟩
      rw [hs]
      dsimp only
      rw [if_pos hidle]
      rfl
    exact ⟨w.emit .reentrantRefresh, session, hends hleft, hs, fun _ _ => rfl, hkept⟩
  | false =>
    obtain ⟨root?, w', h, hdisplays⟩ :=
      exists_render hd hs hidle fun dom shown markup => dom.refresh shown markup
    obtain ⟨f, hdisplays, honly⟩ : ∃ f, Displays w w' s w'.engine.dom f ∧
        Dom.RedrawsOnly w.engine.dom w'.engine.dom session.shown (f session).shown
          (w.engine.dom.parseFragment (trim (w.markup session))).2 := by
      rcases hdisplays with h | h
      · have hdom := h.dom
        exact ⟨id, ⟨rfl, h.session?⟩, hdom ▸ hkept⟩
      · have hdom := h.dom
        exact ⟨_, ⟨rfl, h.session?⟩, hdom ▸ hforest.redrawsOnly_refresh hroot _⟩
    refine ⟨w', f session, hends h, ?_, fun other hother => ?_, honly⟩
    · rw [hdisplays.session?, if_pos rfl, hs, Option.map_some]
    · rw [hdisplays.session?, if_neg hother]

/-- A session shows a paragraph, with another tree beside it. It is refreshed from a template with
two roots: the other tree stays, and the number of nodes changes by the paragraph only. -/
theorem refreshed_refresh_beside :
    let paragraph : Tree Unit := .node () (.element "p" []) [.node () (.text "old") []]
    let beside : Tree Unit := .node () (.element "b" []) []
    let dom := ((Dom.empty.graft paragraph).1.graft beside).1
    let session : Session :=
      { store := 0, template := "<p>{{x}}</p><i>more</i>", shown := some ⟨0, 0⟩ }
    let w : World ℕ := {
      host := 0
      log := fun _ host => host
      engine := {
        sink := fun _ host => host + 1
        directives := [("note", ⟨fun _ content _ => content, fun _ _ _ => .tell (· + 1) .done⟩)]
        cache := { limit := 0, lifetime := 0 }
        dom }
      stores := [{ value := .ofValue (.object [("x", .string "new")]), sink := fun _ host => host }]
      sessions := [(0, session)]
      nextSession := 1 }
    w.engine.dom.IsForest ∧
      (∀ d ∈ w.engine.directives, ∀ arguments content state,
        (d.2.script arguments content state).WritesNothing) ∧
      w.session? 0 = some session ∧
      (∀ root, session.shown = some root →
        w.engine.dom.contains root = true ∧ w.engine.dom.parent? root = none) ∧
      ∃ w' session', Ends (fun d => refresh (invoke d) 0) 1 w () w' ∧
        w'.session? 0 = some session' ∧
        w'.engine.dom.get? ⟨2, 0⟩ = some ⟨.element "b" [], none, []⟩ ∧
        w'.engine.dom.size + 2 = 3 + w'.engine.dom.extent session'.shown := by
  intro paragraph beside dom session w
  obtain ⟨_, -, -, hone⟩ := Dom.consistsOf_empty.graft (t := paragraph)
    (by simp [paragraph, Tree.WellFormed, Tree.WellFormedAll, Content.WellFormed,
      OrderedMap.Distinct])
  obtain ⟨_, -, -, htwo⟩ := hone.graft (t := beside)
    (by simp [beside, Tree.WellFormed, Tree.WellFormedAll, Content.WellFormed,
      OrderedMap.Distinct])
  have hforest : w.engine.dom.IsForest := htwo.isForest
  have hd : ∀ d ∈ w.engine.directives, ∀ arguments content state,
      (d.2.script arguments content state).WritesNothing :=
    List.forall_mem_singleton.2 fun _ _ _ => trivial
  have hlive : w.engine.dom.contains ⟨0, 0⟩ = true ∧ w.engine.dom.parent? ⟨0, 0⟩ = none := by
    decide +kernel
  have hbeside : w.engine.dom.get? ⟨2, 0⟩ = some ⟨.element "b" [], none, []⟩ := by decide +kernel
  have hroot : ∀ root, session.shown = some root →
      w.engine.dom.contains root = true ∧ w.engine.dom.parent? root = none := by
    rintro _ ⟨⟩
    exact hlive
  obtain ⟨w', session', hends, hrefreshed⟩ := refreshed_refresh (s := 0) hforest hd rfl hroot
  refine ⟨hforest, hd, rfl, hroot, w', session', hends, hrefreshed.session?, ?_, ?_⟩
  · rw [hrefreshed.dom.outside ⟨2, 0⟩ (by decide +kernel), hbeside]
    rintro _ ⟨⟩ hbelow
    rcases Relation.ReflTransGen.cases_head hbelow with he | ⟨parent, hparent, -⟩
    · cases he
    · rw [Dom.parent?_eq hbeside] at hparent
      cases hparent
  · exact hrefreshed.dom.size (by decide +kernel)

end World

end LiveMarkup
