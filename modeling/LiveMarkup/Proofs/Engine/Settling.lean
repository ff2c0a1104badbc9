import LiveMarkup.Engine.Execute
import LiveMarkup.Proofs.Engine.Ensuring
import LiveMarkup.Proofs.Engine.Wiring
import LiveMarkup.Proofs.Template.Reports

/-!
# Writes end

In a wired world every program that only reads and writes ends, and its writes unfold as `Unfolds`
says (`Run.settles_execute`). How deep its calls are nested is bounded by the number of idle
sessions: a write calls the refresh of at most one session, which is not idle while its directives
run, so that what they write finds one idle session less (`Run.settlesBelow`).

* `Run.Ends` is a run that ends however deep calls may be nested beyond a bound.
* `Run.Incidental` is a run that changes no state and refreshes nothing, such as keeping a state in
  the storage.
* `Run.Settles` is a run that ends, and whose history unfolds.
-/

namespace LiveMarkup

variable {σ α β : Type}

namespace Run

/-! ## Runs that end -/

/-- If calls may be nested so deep or deeper, the run ends with the same result. -/
def Ends (m : ℕ → Run σ α) (need : ℕ) (w : World σ) (a : α) (w' : World σ) : Prop :=
  ∀ depth, need ≤ depth → m depth w = some (a, w')

/-- The run ends, and records nothing but asides. -/
def Incidental (m : Run σ α) : Prop :=
  ∀ w, ∃ a w' asides, m w = some (a, w') ∧ w.Passes w' asides ∧ AllAside asides

/-- The run ends, and what happens unfolds from the writes in it while the sessions of `busy` are
being refreshed. -/
def Settles (m : ℕ → Run σ α) (need : ℕ) (busy : List SessionId) (w : World σ) : Prop :=
  ∃ a w' since, Ends m need w a w' ∧ w.Passes w' since ∧
    Unfolds w.home w.engine.isLocked busy since

variable {m : ℕ → Run σ α} {f : ℕ → α → Run σ β} {need : ℕ} {busy : List SessionId}
  {w w' w'' : World σ} {a : α} {b : β}

theorem Ends.bind (h : Ends m need w a w') (h' : Ends (fun d => f d a) need w' b w'') :
    Ends (fun d => m d >>= f d) need w b w'' := by
  intro depth hdepth
  exact bind_eq_some_iff.2 ⟨a, w', h depth hdepth, h' depth hdepth⟩

/-- One more call around a run needs one more depth. -/
theorem Ends.of_succ {m' : ℕ → Run σ α} (h : Ends m need w a w')
    (hsucc : ∀ depth, m' (depth + 1) = m depth) : Ends m' (need + 1) w a w' := by
  intro depth hdepth
  cases depth with
  | zero => exact absurd hdepth (Nat.not_succ_le_zero need)
  | succ depth =>
    rw [hsucc]
    exact h depth (Nat.le_of_succ_le_succ hdepth)

namespace Incidental

theorem of_pure (a : α) : Incidental (pure a : Run σ α) :=
  fun w => ⟨a, w, [], rfl, .refl w, .nil⟩

theorem bind {m : Run σ α} {f : α → Run σ β} (h : Incidental m) (h' : ∀ a, Incidental (f a)) :
    Incidental (m >>= f) := by
  intro w
  obtain ⟨a, w', asides, hm, hpasses, hasides⟩ := h w
  obtain ⟨b, w'', asides', hf, hpasses', hasides'⟩ := h' a w'
  exact ⟨b, w'', _, bind_eq_some_iff.2 ⟨a, w', hm, hf⟩, hpasses.trans hpasses',
    hasides.append hasides'⟩

theorem of_get {f : World σ → Run σ α} (h : ∀ w, Incidental (f w)) : Incidental (get >>= f) :=
  fun w => h w w

theorem of_modifyGet {g : World σ → α × World σ} (h : ∀ w, World.Passes w (g w).2 []) :
    Incidental (modifyGet g) :=
  fun w => ⟨(g w).1, (g w).2, [], rfl, h w, .nil⟩

theorem of_except {ε : Type} {f : Except ε α → Run σ β} (hok : ∀ a, Incidental (f (.ok a)))
    (herror : ∀ e, Incidental (f (.error e))) : ∀ r, Incidental (f r)
  | .ok a => hok a
  | .error e => herror e

end Incidental

theorem incidental_emit {d : Diagnostic} (hd : d ≠ .reentrantRefresh) :
    Incidental (emit d : Run σ Unit) := by
  intro w
  refine ⟨(), w.emit d, [.reported d], rfl, ?_, .cons hd .nil⟩
  exact ⟨World.sameWiring_of_eq rfl rfl rfl rfl rfl, rfl, fun _ => rfl⟩

theorem incidental_withHost (f : σ → α × σ) : Incidental (withHost f) :=
  .of_modifyGet fun _ => World.passes_of_eq rfl rfl rfl rfl rfl rfl

theorem incidental_reportStorage (key : String) (error : StorageError) :
    Incidental (reportStorage key error : Run σ Unit) :=
  incidental_emit (by simp)

theorem incidental_persist (state : Fields) : Incidental (persist state : Run σ Unit) := by
  unfold persist
  refine .of_get fun w => ?_
  split
  · next persistence storage _ _ =>
    cases storage with
    | builtin storage =>
      refine .bind ?_ fun _ => .bind (.of_pure _)
        (.of_except (fun _ => .of_pure _) fun _ => incidental_reportStorage _ _)
      exact .of_modifyGet fun _ => World.passes_of_eq rfl rfl rfl rfl rfl rfl
    | custom load save =>
      exact .bind (incidental_withHost _)
        (.of_except (fun _ => .of_pure _) fun _ => incidental_reportStorage _ _)
  · exact .of_pure _

/-- A display is defective only by its markup. -/
theorem defect?_mount [Html.Tokenizer] (dom : Dom) (markup : List Char) :
    (dom.mount markup).defect? ≠ some .reentrantRefresh := by
  rw [Dom.mount]
  split
  · simp
  · dsimp only
    split <;> simp

theorem defect?_refresh [Html.Tokenizer] (dom : Dom) (shown : Option NodeId) (markup : List Char) :
    (dom.refresh shown markup).defect? ≠ some .reentrantRefresh := by
  have hmount := defect?_mount dom markup
  unfold Dom.refresh
  dsimp only
  split <;> exact hmount

/-- What a session shows is no matter either. -/
theorem incidental_show (s : SessionId) (dom : Dom) (root? : Option NodeId) :
    Incidental (modify fun w : World σ => (w.modifyEngine fun e =>
      { e with dom := dom }).modifySession s fun session => { session with shown := root? }) := by
  intro w
  have hengine : w.Passes (w.modifyEngine fun e => { e with dom := dom }) [] :=
    World.passes_of_eq rfl rfl rfl rfl rfl rfl
  refine ⟨(), _, [], rfl, hengine.trans (World.passes_modifySession _ s fun session => ?_), .nil⟩
  rfl

theorem incidental_present (s : SessionId) {display : Display}
    (hdisplay : display.defect? ≠ some .reentrantRefresh) :
    Incidental (present s display : Run σ Unit) := by
  unfold present
  dsimp only
  split
  · next d hd =>
    have hne : d ≠ .reentrantRefresh := fun he => hdisplay (hd.trans (congrArg some he))
    exact .bind (incidental_emit hne) fun _ => incidental_show s _ _
  · exact incidental_show s _ _

namespace Settles

theorem of_pure (a : α) : Settles (fun _ => (pure a : Run σ α)) need busy w :=
  ⟨a, w, [], fun _ _ => rfl, .refl w, .start busy⟩

theorem of_incidental {m : Run σ α} (h : Incidental m) : Settles (fun _ => m) need busy w := by
  obtain ⟨a, w', asides, hm, hpasses, hasides⟩ := h w
  exact ⟨a, w', asides, fun _ _ => hm, hpasses, .of_allAside hasides⟩

theorem of_get {g : ℕ → World σ → Run σ α} (h : Settles (fun d => g d w) need busy w) :
    Settles (fun d => get >>= g d) need busy w :=
  h

/-- Runs settle one after the other in wired worlds with the same number of sessions. -/
theorem bind (hw : w.Wired busy) (h : Settles m need busy w)
    (h' : ∀ a w', w'.Wired busy → w'.sessions.length = w.sessions.length →
      Settles (fun d => f d a) need busy w') : Settles (fun d => m d >>= f d) need busy w := by
  obtain ⟨a, w', since, hends, hpasses, hunfolds⟩ := h
  obtain ⟨b, w'', since', hends', hpasses', hunfolds'⟩ :=
    h' a w' (hw.of_same hpasses.toSameWiring) hpasses.count
  rw [hpasses.home, hpasses.isLocked] at hunfolds'
  exact ⟨b, w'', since' ++ since, hends.bind hends', hpasses.trans hpasses',
    hunfolds.append hunfolds'⟩

end Settles

/-! ## Refreshing -/

variable [Html.Tokenizer]

/-- Programs settle if fewer sessions are idle. -/
def SettlesBelow (σ : Type) (idle : ℕ) : Prop :=
  ∀ fewer < idle, ∀ busy (w : World σ) (p : Program σ), w.Wired busy →
    w.sessions.length ≤ busy.length + fewer → p.OnlyWrites →
    Settles (fun d => execute (invoke d) p) (2 * fewer + 1) busy w

theorem Settles.invoke_script {p : Program σ}
    (h : Settles (fun d => execute (invoke d) p) need busy w) :
    Settles (fun d => invoke d (.script p)) (need + 1) busy w := by
  obtain ⟨a, w', since, hends, hpasses, hunfolds⟩ := h
  exact ⟨a, w', since, hends.of_succ fun _ => rfl, hpasses, hunfolds⟩

/-- What a directive writes while its session is being refreshed settles. -/
theorem settles_replay {idle : ℕ} (hbelow : ∀ (w : World σ) (p : Program σ), w.Wired busy →
      w.sessions.length ≤ busy.length + idle → p.OnlyWrites →
      Settles (fun d => execute (invoke d) p) need busy w)
    (hw : w.Wired busy) (hroom : w.sessions.length ≤ busy.length + idle)
    {directives : OrderedMap String (ActiveDirective σ)}
    (hscripts : ∀ d ∈ directives, ∀ arguments content state,
      (d.2.script arguments content state).OnlyWrites)
    {events : List Template.Event} (hevents : ∀ event ∈ events, event.OfTemplate) :
    Settles (fun d => replay (invoke d) directives events) (need + 1) busy w := by
  induction events generalizing w with
  | nil => exact .of_pure ()
  | cons event rest ih =>
    rw [List.forall_mem_cons] at hevents
    cases event with
    | reported d =>
      have hd : d ≠ .reentrantRefresh := by
        rintro rfl
        exact hevents.1
      simp only [replay]
      refine .bind hw (.of_incidental (incidental_emit hd)) fun _ w' hw' hcount => ?_
      exact ih hw' (hcount ▸ hroom) hevents.2
    | expanded name arguments content state =>
      simp only [replay]
      split
      · next directive hfind =>
        have hscript := hscripts _ (OrderedMap.mem_of_find? hfind) arguments content state
        refine .bind hw (hbelow w _ hw hroom hscript).invoke_script fun _ w' hw' hcount => ?_
        exact ih hw' (hcount ▸ hroom) hevents.2
      · exact ih hw hroom hevents.2

theorem settles_compile {idle : ℕ} (hbelow : ∀ (w : World σ) (p : Program σ), w.Wired busy →
      w.sessions.length ≤ busy.length + idle → p.OnlyWrites →
      Settles (fun d => execute (invoke d) p) need busy w)
    (hw : w.Wired busy) (hroom : w.sessions.length ≤ busy.length + idle) (template : String)
    (state : Fields) :
    Settles (fun d => compile (invoke d) template state) (need + 1) busy w := by
  unfold compile
  refine .of_get (.bind hw ?_ fun _ _ _ _ => .of_pure _)
  exact settles_replay hbelow hw hroom hw.scripts (Template.reportsTemplate_compile _ _ _)

omit [Html.Tokenizer] in
/-- What a session is to show is shown, or it is reported that somebody else holds the nodes. -/
theorem ends_show (s : SessionId) {display : Dom → Display}
    (hdisplay : ∀ dom, (display dom).defect? ≠ some .reentrantRefresh) (w : World σ) :
    ∃ root? w' asides, (∀ next : Option NodeId → Run σ (Option NodeId),
      (if w.engine.isLocked = true then do
        emit .reentrantRefresh
        let root? ← pure none
        next root?
      else do
        present s (display w.engine.dom)
        let root? ← pure (display w.engine.dom).root?
        next root?) w = next root? w') ∧
      w.Passes w' (unshown w.engine.isLocked ++ asides) ∧ AllAside asides := by
  cases w.engine.isLocked with
  | true =>
    refine ⟨none, w.emit .reentrantRefresh, [], fun next => rfl, ?_, .nil⟩
    exact ⟨World.sameWiring_of_eq rfl rfl rfl rfl rfl, rfl, fun _ => rfl⟩
  | false =>
    obtain ⟨_, w', asides, hpresent, hpasses, hasides⟩ :=
      incidental_present s (hdisplay w.engine.dom) w
    refine ⟨(display w.engine.dom).root?, w', asides, fun next => ?_, hpasses, hasides⟩
    exact congrArg (Option.bind · _) hpresent

/-- A refresh of an idle session ends, and what its directives write settles. -/
theorem ends_render {idle : ℕ} (hbelow : SettlesBelow σ idle) (hw : w.Wired busy)
    (hroom : w.sessions.length ≤ busy.length + idle) {s : SessionId} {session : Session}
    (hs : w.session? s = some session) (hidle : s ∉ busy)
    {display : Dom → Option NodeId → List Char → Display}
    (hdisplay : ∀ dom shown markup, (display dom shown markup).defect? ≠ some .reentrantRefresh) :
    ∃ root? w' inner, Ends (fun d => render (invoke d) display s) (2 * idle) w root? w' ∧
      w.Passes w' (.ended s :: (unshown w.engine.isLocked ++ inner ++ [.began s])) ∧
      Unfolds w.home w.engine.isLocked (s :: busy) inner := by
  have hhome : w.home s ≠ none := by simp [World.home, hs]
  have hoff : session.isRefreshing = false := by
    by_contra hon
    exact hidle ((hw.mem_busy s).2 ⟨session, hs, by simpa using hon⟩)
  have hbegin := hw.beginRefresh hhome hidle
  have hcount : (w.beginRefresh s).sessions.length = w.sessions.length :=
    w.length_modifySession s _
  obtain ⟨fewer, rfl⟩ : ∃ fewer, idle = fewer + 1 := by
    have hlt := hw.length_lt hhome hidle
    exact ⟨idle - 1, by omega⟩
  have hfewer : (w.beginRefresh s).sessions.length ≤ (s :: busy).length + fewer := by
    rw [hcount, List.length_cons]
    omega
  obtain ⟨markup, w₂, inner, hends, hpasses, hunfolds⟩ := settles_compile
    (hbelow fewer (Nat.lt_succ_self _) (s :: busy)) hbegin hfewer session.template
    (w.snapshot (.root session.store))
  obtain ⟨root?, w₃, asides, hshow, hpasses', hasides⟩ :=
    ends_show s (fun dom => hdisplay dom session.shown markup) w₂
  rw [hpasses.isLocked, World.isLocked_beginRefresh] at hpasses'
  rw [World.home_beginRefresh, World.isLocked_beginRefresh] at hunfolds
  have hall := hpasses.trans hpasses'
  rw [List.append_assoc] at hall
  refine ⟨root?, w₃.endRefresh s, asides ++ inner, fun depth hdepth => ?_, hall.refresh hs hoff,
    hunfolds.append (.of_allAside hasides)⟩
  unfold render
  refine bind_eq_some_iff.2 ⟨w, w, rfl, ?_⟩
  rw [hs]
  dsimp only
  rw [if_neg (by simp [hoff])]
  refine bind_eq_some_iff.2 ⟨(), w.beginRefresh s, rfl, ?_⟩
  refine bind_eq_some_iff.2 ⟨markup, w₂, hends depth hdepth, ?_⟩
  refine bind_eq_some_iff.2 ⟨w₂, w₂, rfl, ?_⟩
  exact (hshow _).trans rfl

/-- A refresh of a session that is being refreshed is left out and reported. -/
theorem ends_render_of_busy (hw : w.Wired busy) {s : SessionId} (hbusy : s ∈ busy)
    (display : Dom → Option NodeId → List Char → Display) :
    Ends (fun d => render (invoke d) display s) need w none (w.emit .reentrantRefresh) ∧
      w.Passes (w.emit .reentrantRefresh) [.reported .reentrantRefresh] := by
  refine ⟨fun depth _ => ?_, World.sameWiring_of_eq rfl rfl rfl rfl rfl, rfl, fun _ => rfl⟩
  obtain ⟨session, hs, hon⟩ := (hw.mem_busy s).1 hbusy
  unfold render
  refine bind_eq_some_iff.2 ⟨w, w, rfl, ?_⟩
  rw [hs]
  dsimp only
  rw [if_pos hon]
  rfl

/-- A session that is told of a change is refreshed, unless it is being refreshed. -/
theorem ends_onChange {idle : ℕ} (hbelow : SettlesBelow σ idle) (hw : w.Wired busy)
    (hroom : w.sessions.length ≤ busy.length + idle) {s : SessionId} (hs : w.home s ≠ none) :
    ∃ w' response, Ends (fun d => onChange (invoke d) s) (2 * idle) w () w' ∧
      w.Passes w' response ∧ Response w.home w.engine.isLocked busy s response := by
  obtain ⟨session, hs⟩ : ∃ session, w.session? s = some session := by
    rwa [Ne, World.home, Option.map_eq_none_iff, ← Ne, Option.ne_none_iff_exists'] at hs
  obtain ⟨_, w₁, asides, hpersist, hpasses, hasides⟩ :=
    incidental_persist (w.snapshot (.root session.store)) w
  have hw₁ := hw.of_same hpasses.toSameWiring
  have hchange {root? : Option NodeId} {w' : World σ}
      (h : Ends (fun d => render (invoke d) (fun dom shown markup => dom.refresh shown markup) s)
        (2 * idle) w₁ root? w') : Ends (fun d => onChange (invoke d) s) (2 * idle) w () w' := by
    intro depth hdepth
    unfold onChange
    refine bind_eq_some_iff.2 ⟨w, w, rfl, ?_⟩
    rw [hs]
    refine bind_eq_some_iff.2 ⟨(), w₁, hpersist, ?_⟩
    exact bind_eq_some_iff.2 ⟨root?, w', h depth hdepth, rfl⟩
  by_cases hbusy : s ∈ busy
  · obtain ⟨hends, hpasses'⟩ := ends_render_of_busy hw₁ hbusy _
    exact ⟨_, _, hchange hends, hpasses.trans hpasses', .skipped hbusy hasides⟩
  · obtain ⟨session₁, hs₁, -⟩ := World.exists_of_map_eq_some (hpasses.session? s).symm hs
    obtain ⟨root?, w', inner, hends, hpasses', hunfolds⟩ :=
      ends_render hbelow hw₁ (hpasses.count ▸ hroom) hs₁ hbusy defect?_refresh
    rw [hpasses.isLocked] at hpasses' hunfolds
    rw [hpasses.home] at hunfolds
    refine ⟨w', _, hchange hends, hpasses.trans hpasses', ?_⟩
    simpa using Response.refreshed hbusy hasides hunfolds

/-! ## Writing -/

/-- What the listeners of a store do is all that happens before everybody has been told. -/
theorem Ends.notify {store : StoreId} {st : Store σ} (hst : w.stores[store]? = some st)
    (h : Ends (fun d => callAll (invoke d) store w.history.length st.listeners) need w () w') :
    Ends (fun d => Run.notify (invoke d) store) need w () (w'.record (.told store)) := by
  intro depth hdepth
  unfold Run.notify
  refine bind_eq_some_iff.2 ⟨w, w, rfl, ?_⟩
  rw [hst, Option.map_some, Option.getD_some]
  exact bind_eq_some_iff.2 ⟨(), w', h depth hdepth, rfl⟩

theorem Ends.write {store : StoreId} {change : OrderedValue → Option OrderedValue}
    {v : OrderedValue} (hchange : (w.state? store).bind change = some v)
    (h : Ends (fun d => Run.notify (invoke d) store) need (w.change store v) () w') :
    Ends (fun d => Run.write (invoke d) store change) need w true w' := by
  intro depth hdepth
  unfold Run.write
  refine bind_eq_some_iff.2 ⟨w, w, rfl, ?_⟩
  rw [hchange]
  refine bind_eq_some_iff.2 ⟨(), w.change store v, rfl, ?_⟩
  exact bind_eq_some_iff.2 ⟨(), w', h depth hdepth, rfl⟩

/-- A change of a session's state is told to the session, and to nobody else. -/
theorem ends_write_of_heard {idle : ℕ} (hbelow : SettlesBelow σ idle) (hw : w.Wired busy)
    (hroom : w.sessions.length ≤ busy.length + idle) {s : SessionId} {store : StoreId}
    (hs : w.home s = some store) {change : OrderedValue → Option OrderedValue} {v : OrderedValue}
    (hchange : (w.state? store).bind change = some v) :
    ∃ w' response id round, Ends (fun d => write (invoke d) store change) (2 * idle + 1) w true w' ∧
      w.Passes w' (.told store :: (response ++ [.called store id round, .changed store v])) ∧
      Response w.home w.engine.isLocked busy s response := by
  obtain ⟨old, hold, -⟩ := Option.bind_eq_some_iff.1 hchange
  have hchanged := World.passes_changed (v := v) hold
  have hw₁ := hw.of_same hchanged.toSameWiring
  obtain ⟨session, hsession, rfl⟩ := Option.map_eq_some_iff.1 (hchanged.home ▸ hs)
  obtain ⟨st, hst, hlisteners⟩ := hw₁.heard s session hsession
  let called : Moment :=
    .called session.store session.subscription (w.change session.store v).history.length
  have hcalled : (w.change session.store v).Passes
      ((w.change session.store v).record called) [called] :=
    World.passes_record _ fun _ => rfl
  have hpasses₂ := hchanged.trans hcalled
  obtain ⟨w', response, hends, hpasses, hresponse⟩ := ends_onChange hbelow
    (hw.of_same hpasses₂.toSameWiring) (hpasses₂.count ▸ hroom) (s := s)
    (by rw [hpasses₂.home, hs]; simp)
  rw [hpasses₂.home, hpasses₂.isLocked] at hresponse
  refine ⟨w'.record (.told session.store), response, session.subscription,
    (w.change session.store v).history.length,
    .write hchange (.notify hst fun depth hdepth => ?_), ?_, hresponse⟩
  · have hrefresh : Ends (fun d => invoke d (.refresh s)) (2 * idle + 1) _ () w' :=
      hends.of_succ fun _ => rfl
    dsimp only
    rw [hlisteners, callAll]
    refine bind_eq_some_iff.2 ⟨(), _, rfl, ?_⟩
    exact bind_eq_some_iff.2 ⟨(), w', hrefresh depth hdepth, rfl⟩
  · simpa using (hpasses₂.trans hpasses).trans (w'.passes_record fun _ => rfl)

/-- A change of any other state is told to nobody. -/
theorem ends_write_of_unheard (hw : w.Wired busy) {store : StoreId}
    (hstore : ∀ s, w.home s ≠ some store) {change : OrderedValue → Option OrderedValue}
    {v : OrderedValue} (hchange : (w.state? store).bind change = some v) :
    ∃ w', Ends (fun d => write (invoke d) store change) need w true w' ∧
      w.Passes w' [.told store, .changed store v] := by
  obtain ⟨old, hold, -⟩ := Option.bind_eq_some_iff.1 hchange
  have hchanged := World.passes_changed (v := v) hold
  obtain ⟨st, hst, -⟩ := Option.map_eq_some_iff.1 hold
  obtain ⟨st₁, hst₁, -⟩ := World.exists_of_map_eq_some (hchanged.store? store).symm hst
  have hnobody := (hw.of_same hchanged.toSameWiring).unheard store st₁ hst₁ (hchanged.home ▸ hstore)
  refine ⟨(w.change store v).record (.told store), .write hchange (.notify hst₁ fun _ _ => ?_),
    hchanged.trans (World.passes_record _ fun _ => rfl)⟩
  dsimp only
  rw [hnobody, callAll]
  rfl

theorem settles_write {idle : ℕ} (hbelow : SettlesBelow σ idle) (hw : w.Wired busy)
    (hroom : w.sessions.length ≤ busy.length + idle) (store : StoreId)
    (change : OrderedValue → Option OrderedValue) :
    Settles (fun d => write (invoke d) store change) (2 * idle + 1) busy w := by
  cases hchange : (w.state? store).bind change with
  | none =>
    refine ⟨false, w, [], fun depth _ => ?_, .refl w, .start busy⟩
    unfold write
    refine bind_eq_some_iff.2 ⟨w, w, rfl, ?_⟩
    rw [hchange]
    rfl
  | some v =>
    by_cases hheard : ∃ s, w.home s = some store
    · obtain ⟨s, hs⟩ := hheard
      obtain ⟨w', response, id, round, hends, hpasses, hresponse⟩ :=
        ends_write_of_heard hbelow hw hroom hs hchange
      exact ⟨true, w', _, hends, hpasses, hresponse.unfolds hs id round v⟩
    · have hstore (s : SessionId) : w.home s ≠ some store := fun hs => hheard ⟨s, hs⟩
      obtain ⟨w', hends, hpasses⟩ := ends_write_of_unheard hw hstore hchange
      exact ⟨true, w', _, hends, hpasses, .unheard hstore (.start busy)⟩

theorem settles_remove {idle : ℕ} (hbelow : SettlesBelow σ idle) (hw : w.Wired busy)
    (hroom : w.sessions.length ≤ busy.length + idle) (h : Handle) (key : String) :
    Settles (fun d => Run.remove (invoke d) h key) (2 * idle + 1) busy w := by
  unfold Run.remove
  refine .of_get ?_
  cases (w.state? h.store).bind fun root => root.take? h.path key with
  | none => exact .of_pure none
  | some found => exact .bind hw (settles_write hbelow hw hroom _ _) fun _ _ _ _ => .of_pure _

theorem settles_setAll {idle : ℕ} (hbelow : SettlesBelow σ idle) (hw : w.Wired busy)
    (hroom : w.sessions.length ≤ busy.length + idle) (h : Handle)
    (entries : List (String × OrderedValue)) :
    Settles (fun d => setAll (invoke d) h entries) (2 * idle + 1) busy w := by
  induction entries generalizing w with
  | nil => exact .of_pure 0
  | cons entry rest ih =>
    simp only [setAll]
    refine .bind hw (settles_write hbelow hw hroom h.store _) fun changed w' hw' hcount => ?_
    exact .bind hw' (ih hw' (hcount ▸ hroom)) fun _ _ _ _ => .of_pure _

theorem settles_merge {idle : ℕ} (hbelow : SettlesBelow σ idle) (hw : w.Wired busy)
    (hroom : w.sessions.length ≤ busy.length + idle) (h : Handle) (entries : State) :
    Settles (fun d => merge (invoke d) h entries) (2 * idle + 1) busy w := by
  have hnone : middlewareOf w h = [] := by
    rw [middlewareOf]
    split
    · cases hst : w.stores[h.store]? with
      | none => rfl
      | some st => exact hw.middleware h.store st hst
    · rfl
  unfold merge
  refine .of_get ?_
  simp only [hnone, mergeThrough]
  refine .bind hw (settles_setAll hbelow hw hroom h entries.entries) fun _ w' hw' _ => ?_
  refine .bind hw' ?_ fun _ _ _ _ => .of_pure _
  exact ⟨(), _, _, fun _ _ => rfl, w'.passes_record fun _ => rfl, .aside trivial (.start busy)⟩

/-! ## Programs -/

theorem settles_execute_of_below {idle : ℕ} (hbelow : SettlesBelow σ idle) (hw : w.Wired busy)
    (hroom : w.sessions.length ≤ busy.length + idle) {p : Program σ} (hp : p.OnlyWrites) :
    Settles (fun d => execute (invoke d) p) (2 * idle + 1) busy w := by
  induction p generalizing w with
  | done => exact .of_pure ()
  | ask next ih => exact .of_get (ih w.host hw hroom (hp _))
  | tell f next ih =>
    simp only [execute]
    refine .bind hw (.of_incidental ?_) fun _ w' hw' hcount => ih hw' (hcount ▸ hroom) hp
    exact .of_modifyGet fun _ => World.passes_of_eq rfl rfl rfl rfl rfl rfl
  | value h next ih => exact .of_get (ih _ hw hroom (hp _))
  | set h key v next ih =>
    simp only [execute]
    exact .bind hw (settles_write hbelow hw hroom h.store _) fun changed w' hw' hcount =>
      ih changed hw' (hcount ▸ hroom) (hp changed)
  | setIndex h index v next ih =>
    simp only [execute]
    exact .bind hw (settles_write hbelow hw hroom h.store _) fun changed w' hw' hcount =>
      ih changed hw' (hcount ▸ hroom) (hp changed)
  | remove h key next ih =>
    simp only [execute]
    exact .bind hw (settles_remove hbelow hw hroom h key) fun old w' hw' hcount =>
      ih old hw' (hcount ▸ hroom) (hp old)
  | merge h entries next ih =>
    simp only [execute]
    exact .bind hw (settles_merge hbelow hw hroom h _) fun changed w' hw' hcount =>
      ih changed hw' (hcount ▸ hroom) (hp changed)
  | element s next ih => exact .of_get (ih _ hw hroom (hp _))
  | outerHtml s next ih => exact .of_get (ih _ hw hroom (hp _))
  | _ => exact hp.elim

/-- However many sessions are idle, programs settle: a session that is being refreshed is not idle,
so that the writes in its refresh find one idle session less. -/
theorem settlesBelow (idle : ℕ) : SettlesBelow σ idle := by
  induction idle with
  | zero => exact fun fewer hfewer => absurd hfewer (Nat.not_lt_zero fewer)
  | succ idle ih =>
    intro fewer hfewer busy w p hw hroom hp
    rcases Nat.lt_succ_iff_lt_or_eq.1 hfewer with hlt | rfl
    · exact ih fewer hlt busy w p hw hroom hp
    · exact settles_execute_of_below ih hw hroom hp

/-- A program that only writes settles. -/
theorem settles_execute (hw : w.Wired busy) {p : Program σ} (hp : p.OnlyWrites) :
    Settles (fun d => execute (invoke d) p) (2 * (w.sessions.length - busy.length) + 1) busy w :=
  settles_execute_of_below (settlesBelow _) hw (by omega) hp

end Run

end LiveMarkup
