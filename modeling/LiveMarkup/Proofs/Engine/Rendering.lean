import LiveMarkup.Proofs.Engine.Ensuring
import LiveMarkup.Proofs.Engine.Orderly

/-!
# Rendering a session

Compiling a template does nothing that matters to sessions (`Run.ensures_compile`), and so neither
does keeping a state in the storage (`Run.harmless_persist`). Rendering a session of an orderly
world shows what the display makes of the compiled markup, and touches nothing else
(`Run.ensures_render`).
-/

namespace LiveMarkup

namespace Run

variable {σ α β : Type} {call : Callback σ → Run σ Unit} {w : World σ}

/-! ## Harmless runs -/

/-- The run does nothing that matters to sessions. -/
def Harmless (m : Run σ α) : Prop := ∀ w, Ensures (· = w) m fun _ w' => w.Agrees w'

namespace Harmless

theorem bind {m : Run σ α} {f : α → Run σ β} (h : Harmless m) (h' : ∀ a, Harmless (f a)) :
    Harmless (m >>= f) := by
  intro w
  refine (h w).bind fun a w₁ b w₂ hw₁ hb => ?_
  exact hw₁.trans (h' a w₁ w₁ b w₂ rfl hb)

theorem of_pure (a : α) : Harmless (pure a : Run σ α) :=
  fun w => .of_pure fun _ hw => hw ▸ .refl w

theorem of_get {f : World σ → Run σ α} (h : ∀ w, Harmless (f w)) : Harmless (get >>= f) :=
  fun _ => .of_get fun w hw => hw ▸ h w w

theorem of_modifyGet {f : World σ → α × World σ} (h : ∀ w, World.Agrees w (f w).2) :
    Harmless (modifyGet f) :=
  fun _ => .of_modifyGet fun w hw => hw ▸ h w

theorem of_modify {f : World σ → World σ} (h : ∀ w, World.Agrees w (f w)) : Harmless (modify f) :=
  of_modifyGet h

theorem of_except {ε : Type} {f : Except ε α → Run σ β} (hok : ∀ a, Harmless (f (.ok a)))
    (herror : ∀ e, Harmless (f (.error e))) : ∀ result, Harmless (f result)
  | .ok a => hok a
  | .error e => herror e

end Harmless

theorem harmless_emit (d : Diagnostic) : Harmless (emit d : Run σ Unit) :=
  .of_modify fun w => w.agrees_report _ d

theorem harmless_withHost (f : σ → α × σ) : Harmless (withHost f) :=
  .of_modifyGet fun _ => ⟨⟨rfl, rfl, rfl, rfl⟩, ⟨rfl, World.calm_of_eq rfl⟩, ⟨rfl, fun _ => rfl⟩⟩

theorem harmless_restore : Harmless (restore : Run σ (Option State)) := by
  unfold restore
  refine .of_get fun w => ?_
  split
  · next persistence storage _ _ =>
    cases storage with
    | builtin storage =>
      refine .bind (.of_pure _) (.of_except (fun _ => .of_pure _) fun _ => ?_)
      exact .bind (harmless_emit _) fun _ => .of_pure _
    | custom load save =>
      refine .bind (harmless_withHost _) (.of_except (fun _ => .of_pure _) fun _ => ?_)
      exact .bind (harmless_emit _) fun _ => .of_pure _
  · exact .of_pure _

theorem harmless_persist (state : Fields) : Harmless (persist state : Run σ Unit) := by
  unfold persist
  refine .of_get fun w => ?_
  split
  · next persistence storage _ _ =>
    cases storage with
    | builtin storage =>
      refine .bind (.of_modify fun w => ?_) fun _ => .bind (.of_pure _)
        (.of_except (fun _ => .of_pure _) fun _ => harmless_emit _)
      exact ⟨⟨rfl, rfl, rfl, rfl⟩, ⟨rfl, World.calm_of_eq rfl⟩, ⟨rfl, fun _ => rfl⟩⟩
    | custom load save =>
      exact .bind (harmless_withHost _) (.of_except (fun _ => .of_pure _) fun _ => harmless_emit _)
  · exact .of_pure _

/-! ## Compiling -/

/-- The events of directives that run no script change nothing that is shown. -/
theorem harmless_replay (hcall : Harmless (call (.script .done)))
    {directives : OrderedMap String (ActiveDirective σ)}
    (hd : ∀ d ∈ directives, ∀ arguments content state, d.2.script arguments content state = .done)
    (events : List Template.Event) : Harmless (replay call directives events) := by
  induction events with
  | nil => exact .of_pure ()
  | cons e rest ih =>
    cases e with
    | reported d => exact .bind (harmless_emit d) fun _ => ih
    | expanded name arguments content state =>
      rw [replay]
      split
      · next directive hf =>
        rw [hd _ (OrderedMap.mem_of_find? hf)]
        exact .bind hcall fun _ => ih
      · exact ih

/-- To compile a template in a world is to compile it on its own, with the settings of the
engine. -/
theorem ensures_compile (hcall : Harmless (call (.script .done)))
    (hd : ∀ d ∈ w.engine.directives, ∀ arguments content state,
      d.2.script arguments content state = .done) (template : String) (state : Fields) :
    Ensures (· = w) (compile call template state) fun text w' =>
      text = (Template.compile w.engine.settings template.toList state).text ∧ w.Agrees w' := by
  unfold compile
  refine .of_get ?_
  rintro _ rfl
  refine .bind (harmless_replay hcall hd _ _) fun _ => .of_pure fun w' ha => ?_
  exact ⟨rfl, ha⟩

/-! ## Rendering -/

variable {s : SessionId} {session : Session} {old? : Option (Tree NodeId)}

/-- What is presented is what the session shows, and nothing else turns. -/
theorem ensures_present (s : SessionId) (display : Display) :
    Ensures (· = w) (present s display) fun _ w' =>
      w.Turns w' s (fun session => { session with shown := display.root? }) display.dom := by
  have hlast : Ensures (fun w₁ => w.Agrees w₁)
      (modify fun w => (w.modifyEngine fun e => { e with dom := display.dom }).modifySession s
        fun session => { session with shown := display.root? }) fun _ w' =>
      w.Turns w' s (fun session => { session with shown := display.root? }) display.dom := by
    refine .of_modify fun w₁ h => ?_
    have hdom : w₁.Turns (w₁.modifyEngine fun e => { e with dom := display.dom }) s id
        display.dom :=
      ⟨⟨rfl, rfl, rfl, rfl⟩, ⟨rfl, World.calm_of_eq rfl⟩, rfl,
        ((World.Agrees.refl w₁).turns s).session?⟩
    exact ((h.turns s).trans hdom).trans (World.turns_modifySession _ s _)
  unfold present
  split
  · exact .bind (harmless_emit _ w) fun _ => hlast
  · exact hlast.mono (fun w' hw => hw ▸ .refl w) fun _ _ h => h

/-- A session of an orderly world shows what the display makes of its compiled template. -/
theorem ensures_render (hcall : Harmless (call (.script .done))) (hw : w.Orderly)
    (hs : w.session? s = some session) (display : Dom → Option NodeId → List Char → Display) :
    let shown := display w.engine.dom session.shown (Template.compile w.engine.settings
      session.template.toList (w.snapshot (.root session.store))).text
    Ensures (· = w) (render call display s) fun _ w' =>
      w.Turns w' s (fun session => { session with shown := shown.root?, isRefreshing := false })
        shown.dom := by
  intro shown
  unfold render
  refine .of_get ?_
  rintro w rfl
  have hidle := hw.idle s session hs
  simp only [hs, hidle, Bool.false_eq_true, if_false]
  have hbegin : Ensures (· = w) (modify fun w => (w.modifySession s fun session =>
      { session with isRefreshing := true }).record (.began s)) fun _ w₁ =>
        w.Turns w₁ s (fun session => { session with isRefreshing := true }) w.engine.dom := by
    refine .of_modify fun w₁ h => ?_
    subst h
    exact (World.turns_modifySession _ s _).record fun _ => rfl
  have hend {f : Session → Session} {dom : Dom} : Ensures (fun w₁ => w.Turns w₁ s f dom)
      (modify fun w => (w.modifySession s fun session =>
        { session with isRefreshing := false }).record (.ended s)) fun _ w' =>
          w.Turns w' s (fun session => { f session with isRefreshing := false }) dom := by
    refine .of_modify fun w₁ h => ?_
    have hlast := (World.turns_modifySession w₁ s fun session =>
      { session with isRefreshing := false }).record (m := .ended s) fun _ => rfl
    rw [h.dom] at hlast
    exact h.trans hlast
  refine hbegin.bind fun _ => .of_forall fun w₁ h₁ => ?_
  refine (ensures_compile hcall (h₁.directives.symm ▸ hw.inert) _ _).bind fun text => .of_get ?_
  rintro w₂ ⟨rfl, h₂⟩
  have h := h₁.trans (h₂.turns s)
  have hlocked : w₂.engine.isLocked = false := h.isLocked.trans hw.unlocked
  simp only [hlocked, Bool.false_eq_true, if_false]
  rw [h₂.dom, h₁.dom, h₁.settings]
  refine (ensures_present s shown).bind fun _ => ?_
  refine .bind (.of_pure (Q := fun _ w₃ => w.Turns w₃ s _ shown.dom) fun w₃ h₃ => h.trans h₃)
    fun root? => ?_
  exact hend.bind fun _ => .of_pure fun _ h => h

/-- A session shows what its template stands for in its state. If that is nothing, it shows what it
showed. -/
structure Renews [Html.Tokenizer] (w w' : World σ) (s : SessionId) (session : Session)
    (old? new? : Option (Tree NodeId)) : Prop extends World.Redrawn w w' s session old? new? where
  shown : session.shown = old?.map Tree.label
  shows : ∀ t, old? = some t → w.Shows s t
  kept : w.engine.rendering? session.template (w.snapshot (.root session.store)) = none →
    new? = old?
  alike : ∀ t, w.engine.rendering? session.template (w.snapshot (.root session.store)) = some t →
    ∃ made, new? = some made ∧ made.Alike t

theorem ensures_render_of_refresh [Html.Tokenizer] (hcall : Harmless (call (.script .done)))
    (hw : w.Orderly) (hs : w.session? s = some session)
    {display : Dom → Option NodeId → List Char → Display}
    (hdisplay : ∀ markup, display w.engine.dom session.shown markup =
      w.engine.dom.refresh session.shown markup) :
    Ensures (· = w) (render call display s) fun _ w' =>
      ∃ old? new?, Renews w w' s session old? new? := by
  obtain ⟨old?, hshown, hold⟩ := hw.exists_shown hs
  obtain ⟨new?, hroot, hredraws, hkept, halike⟩ := Dom.redraws_refresh hw.sound
    (fun t ht => ⟨(hold t ht).hosts, (hold t ht).nodup, (hold t ht).wellFormed⟩)
    (Template.compile w.engine.settings session.template.toList
      (w.snapshot (.root session.store))).text
  refine (ensures_render hcall hw hs display).mono (fun _ h => h) fun _ w' h => ?_
  rw [hdisplay, hshown] at h
  refine ⟨old?, new?, ⟨⟨h.toSameEngine, h.toSameStores, fun other => ?_, ?_⟩, hshown, hold, hkept,
    halike⟩⟩
  · rw [h.session?, hs, Option.map_some, hroot, ← hw.idle s session hs]
  · rw [h.dom]
    exact hredraws

/-- A refresh shows the new tree in place of the old one, and leaves all other trees. -/
theorem ensures_refresh [Html.Tokenizer] (hcall : Harmless (call (.script .done))) (hw : w.Orderly)
    (hs : w.session? s = some session) :
    Ensures (· = w) (refresh call s) fun _ w' => ∃ old? new?, Renews w w' s session old? new? :=
  .bind (ensures_render_of_refresh hcall hw hs fun _ => rfl) fun _ => .of_pure fun _ h => h

theorem ensures_mount [Html.Tokenizer] (hcall : Harmless (call (.script .done))) (hw : w.Orderly)
    (hs : w.session? s = some session) (hnone : session.shown = none) :
    Ensures (· = w) (mount call s) fun _ w' => ∃ old? new?, Renews w w' s session old? new? :=
  ensures_render_of_refresh hcall hw hs fun markup => by rw [hnone, Dom.refresh_none]

end Run

end LiveMarkup
