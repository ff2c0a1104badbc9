import LiveMarkup.Proofs.Engine.Calling

/-!
# Opening a session

A session is opened on a store of its own, whose first listener is its refresh (`World.Founds`), and
is mounted at once (`Run.ensures_start`). From then on it is kept track of
(`Watch.tracks_of_founds`). Other sessions are not touched (`Watch.Tracks.founds`).
-/

namespace LiveMarkup

variable {σ : Type}

theorem modify_append_singleton {α : Type} (l : List α) (a : α) (f : α → α) :
    (l ++ [a]).modify l.length f = l ++ [f a] := by
  induction l with
  | nil => rfl
  | cons b l ih =>
    rw [List.cons_append, List.length_cons, List.modify_succ_cons, ih, List.cons_append]

namespace World

/-- A store is added, and nothing else has happened that matters to sessions. -/
structure Gains (w w' : World σ) (store : Store σ) : Prop extends
  SameEngine w w', SameView w w' where
  stores : w'.stores = w.stores ++ [store]
  calm : w.Calm w'

/-- A session and a store are added. -/
structure Opens (w w' : World σ) (session : Session) (store : Store σ) : Prop where
  isLocked : w'.engine.isLocked = w.engine.isLocked
  directives : w'.engine.directives = w.engine.directives
  config : w'.engine.config = w.engine.config
  nextSession : w'.nextSession = w.nextSession + 1
  dom : w'.engine.dom = w.engine.dom
  session? : ∀ s, w'.session? s = if s = w.nextSession then some session else w.session? s
  stores : w'.stores = w.stores ++ [store]
  calm : w.Calm w'

variable {w w' w'' : World σ} {session : Session} {store : Store σ} {s : SessionId}
  {t : Tree NodeId} {template : String}

theorem gains_addStore (w : World σ) (state : State) (sink : Diagnostic → σ → σ) :
    w.Gains (w.addStore state sink).1 { value := state.root, sink } :=
  ⟨⟨rfl, rfl, rfl, rfl⟩, ⟨rfl, fun _ => rfl⟩, rfl, calm_of_eq rfl⟩

/-- Where nothing of what is shown changes, the new store stays as it was gained. -/
theorem Gains.agrees (h : w.Gains w' store) (ha : w'.Agrees w'') : w.Gains w'' store :=
  ⟨h.toSameEngine.trans ha.toSameEngine, h.toSameView.trans ha.toSameView,
    ha.stores.trans h.stores, h.calm.trans ha.calm⟩

theorem Gains.modifyStore (h : w.Gains w' store) (f : Store σ → Store σ) :
    w.Gains (w'.modifyStore w.stores.length f) (f store) := by
  refine ⟨⟨h.isLocked, h.directives, h.config, h.nextSession⟩, ⟨h.dom, h.session?⟩, ?_, h.calm⟩
  rw [World.modifyStore, h.stores, modify_append_singleton]

theorem Gains.opens (h : w.Gains w' store) (session : Session) :
    w.Opens { w' with
      sessions := OrderedMap.put w'.sessions w'.nextSession session
      nextSession := w'.nextSession + 1 } session store := by
  refine ⟨h.isLocked, h.directives, h.config, ?_, h.dom, fun s => ?_, h.stores, h.calm⟩
  · rw [h.nextSession]
  · rw [← h.session?, World.session?, World.session?, OrderedMap.find?_put, h.nextSession]
    simp only [eq_comm]

theorem Opens.modifyStore (h : w.Opens w' session store) (f : Store σ → Store σ) :
    w.Opens (w'.modifyStore w.stores.length f) session (f store) := by
  refine ⟨h.isLocked, h.directives, h.config, h.nextSession, h.dom, h.session?, ?_, h.calm⟩
  rw [World.modifyStore, h.stores, modify_append_singleton]

theorem Opens.record (h : w.Opens w' session store) {m : Moment}
    (hm : ∀ store, m.state? store = none) : w.Opens (w'.record m) session store :=
  ⟨h.isLocked, h.directives, h.config, h.nextSession, h.dom, h.session?, h.stores,
    h.calm.trans (sameStores_record w' hm).calm⟩

theorem Opens.modifySession (h : w.Opens w' session store) (f : Session → Session) :
    w.Opens (w'.modifySession w.nextSession f) (f session) store := by
  have ht := w'.turns_modifySession w.nextSession f
  refine ⟨ht.isLocked.trans h.isLocked, ht.directives.trans h.directives, ht.config.trans h.config,
    ht.nextSession.trans h.nextSession, ht.dom.trans h.dom, fun s => ?_, ht.stores.trans h.stores,
    h.calm.trans ht.calm⟩
  rw [ht.session?, h.session?, if_pos rfl, h.session?]
  split <;> rfl

/-- A session is opened for a template, on a new store, and is the first to listen to it. -/
def Founds (w w' : World σ) (template : String) : Prop :=
  ∃ value, w.Opens w' { store := w.stores.length, template }
    { value, listeners := [⟨0, .refresh w.nextSession⟩], nextId := 1, sink := w.engine.sink }

theorem Founds.settings (h : w.Founds w' template) : w'.engine.settings = w.engine.settings := by
  obtain ⟨_, h⟩ := h
  rw [Engine.settings, Engine.settings, h.directives, h.config]

/-- Only the session that is founded is new. -/
theorem Founds.session? (h : w.Founds w' template) (s : SessionId) :
    w'.session? s =
      if s = w.nextSession then some { store := w.stores.length, template } else w.session? s := by
  obtain ⟨_, h⟩ := h
  exact h.session? s

theorem Founds.dom (h : w.Founds w' template) : w'.engine.dom = w.engine.dom := by
  obtain ⟨_, h⟩ := h
  exact h.dom

theorem Founds.shows_iff (h : w.Founds w' template) :
    w'.Shows s t ↔ s ≠ w.nextSession ∧ w.Shows s t := by
  by_cases he : s = w.nextSession
  · refine ⟨fun ht => ?_, fun ht => absurd he ht.1⟩
    have hnone := ht.shown
    rw [h.session?, if_pos he, Option.bind_some] at hnone
    cases hnone
  · have hs : w'.session? s = w.session? s := by rw [h.session?, if_neg he]
    constructor
    · rintro ⟨ha, hb, hc, hd⟩
      exact ⟨he, hs ▸ ha, h.dom ▸ hb, hc, hd⟩
    · rintro ⟨-, ha, hb, hc, hd⟩
      exact ⟨hs.symm ▸ ha, h.dom.symm ▸ hb, hc, hd⟩

/-- An orderly world is left orderly by a session that shows nothing yet. -/
theorem Orderly.founds (hw : w.Orderly) (h : w.Founds w' template) : w'.Orderly := by
  have ⟨value, hopens⟩ := h
  refine ⟨h.dom.symm ▸ hw.sound, hopens.isLocked.trans hw.unlocked,
    hopens.directives.symm ▸ hw.inert, ?_, ?_, ?_, ?_, ?_, ?_⟩
  · rw [hopens.stores]
    refine List.forall_mem_append.2 ⟨hw.listeners, List.forall_mem_singleton.2 ?_⟩
    exact List.forall_mem_singleton.2 trivial
  · rw [hopens.stores]
    exact List.forall_mem_append.2 ⟨hw.middleware, List.forall_mem_singleton.2 nofun⟩
  · intro s session hs
    rw [h.session?] at hs
    split at hs
    · exact Option.some.inj hs ▸ rfl
    · exact hw.idle s session hs
  · intro s session hs
    rw [h.session?] at hs
    rw [hopens.nextSession]
    split at hs
    · next he => exact he ▸ Nat.lt_succ_self _
    · exact Nat.lt_succ_of_lt (hw.known s session hs)
  · intro s root hs
    rw [h.session?] at hs
    split at hs
    · cases hs
    · next hne =>
      obtain ⟨t, hlabel, ht⟩ := hw.shows s root hs
      exact ⟨t, hlabel, h.shows_iff.2 ⟨hne, ht⟩⟩
  · exact fun s₁ s₂ t u hne ht hu =>
      hw.apart s₁ s₂ t u hne (h.shows_iff.1 ht).2 (h.shows_iff.1 hu).2

end World

namespace Watch

variable {k : Watch} {late : Bool} {w w' w₁ : World σ} {template : String}
  {old? new? : Option (Tree NodeId)}

/-- Opening another session makes no difference. -/
theorem Tracks.founds [Html.Tokenizer] (hw : k.Tracks late w) (h : w.Founds w' template) :
    k.Tracks late w' := by
  have ⟨value, hopens⟩ := h
  obtain ⟨session, hs, -, -⟩ := hw.session
  obtain ⟨st, rest, hst, -⟩ := hw.listener
  have hne : k.session ≠ w.nextSession := Nat.ne_of_lt (hw.orderly.known k.session session hs)
  refine hw.of_calm (hw.orderly.founds h) h.settings hopens.calm ?_ ?_
    fun t ht => h.shows_iff.2 ⟨hne, ht⟩
  · rw [hopens.stores, List.getElem?_append_left (List.getElem?_eq_some_iff.1 hst).1]
  · rw [h.session?, if_neg hne]

/-- A session is kept track of from its opening on. -/
theorem tracks_of_founds [Html.Tokenizer] (hw : w.Orderly) (h : w.Founds w₁ template)
    (hr : Run.Renews w₁ w' w.nextSession { store := w.stores.length, template } old? new?) :
    Tracks ⟨w.nextSession, w.stores.length, template, w'.engine.settings, w'.history,
      w'.snapshot (.root w.stores.length)⟩ false w' := by
  have ⟨value, hopens⟩ := h
  have hs : w₁.session? w.nextSession = some { store := w.stores.length, template } := by
    rw [h.session?, if_pos rfl]
  have hself : w'.session? w.nextSession =
      some { store := w.stores.length, template, shown := new?.map Tree.label } := by
    rw [hr.session?, if_pos rfl]
  refine ⟨(hw.founds h).redraw hs hr.shows hr.toRedrawn, rfl, ⟨_, hself, rfl, rfl⟩, ?_, [], [], rfl,
    rfl, ?_⟩
  · rw [hr.stores, hopens.stores]
    exact ⟨_, [], List.getElem?_concat_length, rfl⟩
  · rw [hr.snapshot, if_neg Bool.false_ne_true]
    refine displays_of_renews hr.settings.symm hs rfl rfl (fun _ => ?_) hr
    rw [Displays]
    change (w₁.session? w.nextSession).bind Session.shown = none
    rw [hs]
    rfl

end Watch

namespace Run

variable {call : Callback σ → Run σ Unit} {w : World σ}

/-- A session is opened on a store of its own, and is the first to listen to it. -/
theorem ensures_start [Html.Tokenizer] (hdone : Harmless (call (.script .done))) (hw : w.Orderly)
    (template : String) (state : State) :
    Ensures (· = w) (start call template state) fun s w' => s = w.nextSession ∧
      ∃ w₁ old? new?, w.Founds w₁ template ∧
        Renews w₁ w' s { store := w.stores.length, template } old? new? := by
  unfold start
  refine .bind (Q := fun store w₁ => store = w.stores.length ∧
    w.Gains w₁ { value := state.root, sink := w.engine.sink }) ?_ fun store => ?_
  · refine .of_modifyGet ?_
    rintro w rfl
    exact ⟨rfl, w.gains_addStore state _⟩
  refine .of_forall ?_
  rintro w₁ ⟨rfl, h₁⟩
  refine .bind (Q := fun _ w₂ => w.Gains w₂ { value := state.root, sink := w.engine.sink }) ?_
    fun stored? => ?_
  · exact (harmless_restore w₁).mono (fun _ h => h) fun _ _ ha => h₁.agrees ha
  have hlast (value : OrderedValue) : Ensures (fun w₂ =>
      w.Gains w₂ { value, sink := w.engine.sink }) (do
      let s ← modifyGet fun w' => (w'.nextSession, { w' with
        sessions := OrderedMap.put w'.sessions w'.nextSession { store := w.stores.length, template }
        nextSession := w'.nextSession + 1 })
      let id ← subscribe w.stores.length (.refresh s)
      modify fun w' => w'.modifySession s fun session => { session with subscription := id }
      let _ ← mount call s
      pure s) fun s w' => s = w.nextSession ∧
      ∃ w₁ old? new?, w.Founds w₁ template ∧
        Renews w₁ w' s { store := w.stores.length, template } old? new? := by
    refine .bind (Q := fun s w₃ => s = w.nextSession ∧
      w.Opens w₃ { store := w.stores.length, template } { value, sink := w.engine.sink }) ?_
      fun s => ?_
    · exact .of_modifyGet fun w₂ h₂ => ⟨h₂.nextSession, h₂.opens _⟩
    refine .of_forall ?_
    rintro w₃ ⟨rfl, h₃⟩
    have hstore : w₃.stores[w.stores.length]? = some { value, sink := w.engine.sink } := by
      rw [h₃.stores, List.getElem?_concat_length]
    refine .bind (Q := fun id w₄ => id = 0 ∧ w.Founds w₄ template) ?_ fun id => ?_
    · unfold subscribe
      refine .of_get ?_
      rintro w₃ rfl
      rw [hstore]
      refine .bind (.of_set (Q := fun _ w₄ => w.Founds w₄ template) fun _ _ => ?_) fun _ =>
        .of_pure fun _ h₄ => ⟨rfl, h₄⟩
      exact ⟨value, (h₃.modifyStore _).record fun _ => rfl⟩
    refine .of_forall ?_
    rintro w₄ ⟨rfl, value, h₄⟩
    refine .bind (Q := fun _ w₅ => w.Founds w₅ template) ?_ fun _ => .of_forall ?_
    · exact .of_modify fun w₄ he => he ▸ ⟨value, h₄.modifySession _⟩
    intro w₅ h₅
    have hsession : w₅.session? w.nextSession = some { store := w.stores.length, template } := by
      obtain ⟨_, h₅⟩ := h₅
      rw [h₅.session?, if_pos rfl]
    refine (ensures_mount hdone (hw.founds h₅) hsession rfl).bind fun _ => .of_pure ?_
    rintro w' ⟨old?, new?, hr⟩
    exact ⟨rfl, w₅, old?, new?, h₅, hr⟩
  split
  · next stored =>
    refine .bind (Q := fun _ w₃ => w.Gains w₃
      { value := stored.root, sink := w.engine.sink }) ?_ fun _ => hlast _
    exact .of_modify fun w₂ h₂ => h₂.modifyStore _
  · exact hlast _

end Run

end LiveMarkup
