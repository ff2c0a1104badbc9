import LiveMarkup.Proofs.Engine.Accounting
import LiveMarkup.Proofs.Engine.Transparency

/-!
# Every change is told once

A write that changes a state calls everybody who listens, each once, in the order in which they
subscribed, and all of them before it returns. That goes for all writes of a run, also for those of
listeners inside other writes (`Run.tells_each_change_once`). A write that changes nothing leaves
the world as it is, and a merge counts the writes of its own that changed something
(`World.Merges`).
-/

namespace LiveMarkup

variable {σ : Type}

/-! ## Changing a state -/

namespace Value

variable {old v new : Value} {path : Path} {key : String} {index : Nat}

theorem resolve?_of_objectAt? {fields : Fields} (h : v.objectAt? path = some fields) :
    v.resolve? path = some (.object fields) := by
  obtain ⟨here, hhere, hfields⟩ := Option.bind_eq_some_iff.1 h
  cases here with
  | object fields' =>
    cases hfields
    exact hhere
  | _ => cases hfields

theorem resolve?_of_arrayAt? {items : List Value} (h : v.arrayAt? path = some items) :
    v.resolve? path = some (.array items) := by
  obtain ⟨here, hhere, hitems⟩ := Option.bind_eq_some_iff.1 h
  cases here with
  | array items' =>
    cases hitems
    exact hhere
  | _ => cases hitems

theorem put?_ne (h : old.put? path key v = some new) : new ≠ old := by
  rw [put?] at h
  split at h
  · cases h
  next fields hfields =>
  split at h
  · cases h
  next hnew =>
  cases h
  refine replaceAt_ne (resolve?_of_objectAt? hfields) fun he => hnew ?_
  obtain hsame : fields.insert key v = fields := object.inj he
  rw [← hsame, Fields.find?_insert, if_pos rfl, Option.any_some]
  exact v.sameInState_self

theorem putAt?_ne (h : old.putAt? path index v = some new) : new ≠ old := by
  rw [putAt?] at h
  split at h
  · cases h
  next items hitems =>
  have hhere := resolve?_of_arrayAt? hitems
  split at h
  · cases h
    refine replaceAt_ne hhere fun he => ?_
    have hlength := congrArg List.length (array.inj he)
    rw [List.length_append, List.length_singleton] at hlength
    omega
  · split at h
    · cases h
    next was hwas =>
    split at h
    · cases h
    next hnew =>
    cases h
    refine replaceAt_ne hhere fun he => hnew ?_
    obtain ⟨hindex, -⟩ := List.getElem?_eq_some_iff.1 hwas
    have hset : (items.set index v)[index]? = some v := List.getElem?_set_self hindex
    rw [array.inj he, hwas] at hset
    rw [Option.some.inj hset]
    exact v.sameInState_self

theorem take?_ne (h : old.take? path key = some (v, new)) : new ≠ old := by
  rw [take?] at h
  split at h
  · cases h
  next fields hfields =>
  obtain ⟨was, hwas, hmade⟩ := Option.map_eq_some_iff.1 h
  cases hmade
  refine replaceAt_ne (resolve?_of_objectAt? hfields) fun he => ?_
  have hlength := Fields.length_erase hwas
  rw [object.inj he] at hlength
  omega

end Value

/-- One write through a handle. -/
inductive Write
  | set (h : Handle) (key : String) (v : OrderedValue)
  | setIndex (h : Handle) (index : Nat) (v : OrderedValue)
  | remove (h : Handle) (key : String)

namespace Write

/-- The store that is written to. -/
def store : Write → StoreId
  | set h .. | setIndex h .. | remove h _ => h.store

/-- What becomes of a state, if anything changes. -/
def change? : Write → OrderedValue → Option OrderedValue
  | set h key v, old => old.put? h.path key v
  | setIndex h index v, old => old.putAt? h.path index v
  | remove h key, old => (old.take? h.path key).map Prod.snd

theorem map_val_change? (e : Write) (old : OrderedValue) :
    (e.change? old).map Subtype.val = match e with
      | set h key v => old.1.put? h.path key v.1
      | setIndex h index v => old.1.putAt? h.path index v.1
      | remove h key => (old.1.take? h.path key).map Prod.snd := by
  cases e with
  | set => exact OrderedValue.map_val_put?
  | setIndex => exact OrderedValue.map_val_putAt?
  | remove => exact OrderedValue.map_val_snd_take?

/-- Writes; whether anything changed. -/
def run (call : Callback σ → Run σ Unit) : Write → Run σ Bool
  | set h key v => Run.set call h key v
  | setIndex h index v => Run.setIndex call h index v
  | remove h key => do pure (← Run.remove call h key).isSome

theorem change?_ne {e : Write} {old v : OrderedValue} (h : e.change? old = some v) : v ≠ old := by
  have hvalue := congrArg (Option.map Subtype.val) h
  rw [map_val_change?, Option.map_some] at hvalue
  refine Subtype.coe_ne_coe.1 ?_
  cases e with
  | set => exact Value.put?_ne hvalue
  | setIndex => exact Value.putAt?_ne hvalue
  | remove =>
    obtain ⟨⟨was, left⟩, htake, hleft⟩ := Option.map_eq_some_iff.1 hvalue
    exact hleft ▸ Value.take?_ne htake

theorem changed_eq {call : Callback σ → Run σ Unit} {w w' : World σ} {store : StoreId}
    {change : OrderedValue → Option OrderedValue} {changed : Bool}
    (h : Run.write call store change w = some (changed, w')) :
    changed = ((w.state? store).bind change).isSome := by
  unfold Run.write at h
  obtain ⟨_, _, hget, h⟩ := Run.bind_eq_some_iff.1 h
  cases hget
  cases hv : (w.state? store).bind change with
  | none =>
    rw [hv] at h
    cases h
    rfl
  | some v =>
    rw [hv] at h
    obtain ⟨_, _, -, h⟩ := Run.bind_eq_some_iff.1 h
    obtain ⟨_, _, -, h⟩ := Run.bind_eq_some_iff.1 h
    cases h
    rfl

theorem write_of_run {call : Callback σ → Run σ Unit} {e : Write} {w w' : World σ} {changed : Bool}
    (h : e.run call w = some (changed, w')) :
    Run.write call e.store e.change? w = some (changed, w') := by
  cases e with
  | set => exact h
  | setIndex => exact h
  | remove handle key =>
    obtain ⟨old?, _, h, hpure⟩ := Run.bind_eq_some_iff.1 h
    cases hpure
    unfold Run.remove at h
    obtain ⟨_, _, hget, h⟩ := Run.bind_eq_some_iff.1 h
    cases hget
    have hchange : (w.state? handle.store).bind (remove handle key).change? =
        ((w.state? handle.store).bind fun root => root.take? handle.path key).map Prod.snd :=
      Option.map_bind.symm
    cases htake : (w.state? handle.store).bind fun root => root.take? handle.path key with
    | none =>
      rw [htake] at h hchange
      cases h
      exact Run.write_eq_of_none hchange
    | some taken =>
      rw [htake] at h hchange
      obtain ⟨done, _, hwrite, hpure⟩ := Run.bind_eq_some_iff.1 h
      cases hpure
      have hdone : done = true := (changed_eq hwrite).trans (congrArg Option.isSome hchange)
      rw [hdone] at hwrite
      exact hwrite

end Write

namespace World

variable {w w' w'' : World σ} {store : StoreId} {st : Store σ} {m : Moment}
  {opened opened' : List (StoreId × SubscriptionId × Nat)}

/-- The names of those that listen to a store, in the order in which they subscribed. -/
def audience (w : World σ) (store : StoreId) : List SubscriptionId :=
  ((w.stores[store]?.map Store.listeners).getD []).map Listener.id

/-- A store has become a value, and all its listeners have been called, each once and in order.
That is all that has happened, and what came of it. -/
structure Tells (w w' : World σ) (store : StoreId) (v : OrderedValue)
    (during : List Moment) : Prop where
  history : w'.history = .told store :: (during ++ .changed store v :: w.history)
  bracketed : Bracketed during
  called : roll store (w.history.length + 1) during = w.audience store

/-- Entries are written one after the other, and some of them, as many as it is said, change
something when their turn comes. -/
inductive Merges (call : Callback σ → Run σ Unit) (h : Handle) :
    World σ → List (String × OrderedValue) → Nat → World σ → Prop
  | nil {w : World σ} : Merges call h w [] 0 w
  | same {w w' : World σ} {key : String} {v : OrderedValue} {rest : List (String × OrderedValue)}
      {count : Nat}
      (hsame : (w.state? h.store).bind (Write.set h key v).change? = none)
      (hrest : Merges call h w rest count w') : Merges call h w ((key, v) :: rest) count w'
  | changed {w w₁ w' : World σ} {key : String} {v old new : OrderedValue}
      {rest : List (String × OrderedValue)} {count : Nat} {during : List Moment}
      (hset : (Write.set h key v).run call w = some (true, w₁))
      (hold : w.state? h.store = some old) (hnew : (Write.set h key v).change? old = some new)
      (htold : w.Tells w₁ h.store new during) (hrest : Merges call h w₁ rest count w') :
      Merges call h w ((key, v) :: rest) (count + 1) w'

/-- What has happened adds up, and the listeners are those that the history says. -/
def AddsUp (w w' : World σ) (opened : List (StoreId × SubscriptionId × Nat)) : Prop :=
  ∃ since, w'.history = since ++ w.history ∧
    Accounted w.audience w.history.length opened since ∧
    ∀ store, w'.audience store = enrolled store (w.audience store) since

theorem audience_of_some (hst : w.stores[store]? = some st) :
    w.audience store = st.listeners.map Listener.id := by
  rw [audience, hst]
  rfl

theorem audience_modifyStore (hst : w.stores[store]? = some st) (f : Store σ → Store σ)
    (other : StoreId) : (w.modifyStore store f).audience other =
      if other = store then (f st).listeners.map Listener.id else w.audience other := by
  change (((w.stores.modify store f)[other]?.map Store.listeners).getD []).map Listener.id = _
  split
  · next he =>
    rw [he, List.getElem?_modify_eq, hst]
    rfl
  · next hne =>
    rw [List.getElem?_modify_ne _ _ (Ne.symm hne)]
    rfl

theorem addsUp_of_cons (hm : m.IsInside) (hh : w'.history = m :: w.history)
    (hround : ∀ c, m.call? = some c → c.2.2 ≤ w.history.length)
    (ha : ∀ store, w'.audience store = m.enrol store (w.audience store)) :
    w.AddsUp w' m.call?.toList :=
  ⟨[m], hh, .singleton hm hround, ha⟩

theorem AddsUp.trans (h : w.AddsUp w' opened) (h' : w'.AddsUp w'' opened')
    (hopened : ∀ c ∈ opened', c.2.2 ≤ w.history.length) : w.AddsUp w'' (opened ++ opened') := by
  obtain ⟨since, hs, haccounted, haudience⟩ := h
  obtain ⟨later, hl, haccounted', haudience'⟩ := h'
  have hlength : w'.history.length = w.history.length + since.length := by
    rw [hs, List.length_append, Nat.add_comm]
  rw [hlength, funext haudience] at haccounted'
  refine ⟨later ++ since, by rw [hl, hs, List.append_assoc], haccounted.append haccounted' hopened,
    fun store => ?_⟩
  rw [haudience', haudience, enrolled_append]

theorem AddsUp.of_idles (h : w.Idles w') : w.AddsUp w' [] := by
  obtain ⟨hstores, since, hs, hidle⟩ := h
  refine ⟨since, hs, .of_idle hidle, fun store => ?_⟩
  rw [enrolled_of_idle hidle, audience, hstores]
  rfl

theorem addsUp_enlist (callback : Callback σ) (hst : w.stores[store]? = some st) :
    w.AddsUp ((w.modifyStore store fun s => s.enlist callback).record
      (.subscribed store st.nextId)) [] := by
  refine addsUp_of_cons (m := .subscribed store st.nextId) trivial rfl nofun fun other => ?_
  refine (audience_modifyStore hst _ other).trans ?_
  rw [Moment.enrol, Store.enlist, List.map_append]
  by_cases he : other = store
  · rw [if_pos he, if_pos he.symm, he, audience_of_some hst]
    rfl
  · rw [if_neg he, if_neg (Ne.symm he)]

theorem addsUp_dismiss {id : SubscriptionId}
    (h : (w.stores[store]?).any (fun s => s.hasListener id) = true) :
    w.AddsUp ((w.modifyStore store fun s => s.dismiss id).record
      (.unsubscribed store id)) [] := by
  obtain ⟨st, hst, -⟩ := (Option.any_eq_true _ _).1 h
  refine addsUp_of_cons (m := .unsubscribed store id) trivial rfl nofun fun other => ?_
  refine (audience_modifyStore hst _ other).trans ?_
  rw [Moment.enrol, Store.dismiss]
  by_cases he : other = store
  · rw [if_pos he, if_pos he.symm, he, audience_of_some hst, List.filter_map]
    rfl
  · rw [if_neg he, if_neg (Ne.symm he)]

theorem addsUp_addStore (w : World σ) (state : State) (sink : Diagnostic → σ → σ) :
    w.AddsUp (w.addStore state sink).1 [] := by
  refine ⟨[], rfl, .nil, fun store => ?_⟩
  change (((w.stores ++ [_])[store]?.map Store.listeners).getD []).map Listener.id =
    ((w.stores[store]?.map Store.listeners).getD []).map Listener.id
  rw [List.getElem?_append]
  split
  · rfl
  · next hge =>
    rw [List.getElem?_singleton, List.getElem?_eq_none (Nat.le_of_not_lt hge)]
    split <;> rfl

end World

/-- Every run adds up. -/
def telling : Pairing σ :=
  { rounds with
    Leads := fun w w' => w.AddsUp w' []
    trans := fun h h' => h.trans h' (List.forall_mem_nil _)
    idles := .of_idles
    admits := fun _ _ => trivial
    trusts := fun _ h => h
    enlists := World.addsUp_enlist
    dismisses := World.addsUp_dismiss
    addsStore := World.addsUp_addStore }

namespace Run

variable {call call' : Callback σ → Run σ Unit} {w : World σ} {store : StoreId} {h : Handle}

/-- A round calls its listeners once each. -/
theorem addsUp_callAll (hcall : ∀ c, telling.Pairs (call c) (call' c)) {round : Nat}
    {ls : List (Listener σ)} (hround : round ≤ w.history.length) :
    Ensures (· = w) (callAll call store round ls) fun _ w' =>
      w.AddsUp w' (ls.map fun l => (store, l.id, round)) := by
  induction ls generalizing w with
  | nil => exact .of_pure fun w' he => he ▸ telling.leads_refl w
  | cons l rest ih =>
    refine .bind (Q := fun _ w₁ => w₁ = w.record (.called store l.id round))
      (.of_modify fun _ h => h ▸ rfl) fun _ => .of_forall ?_
    rintro w₁ rfl
    have hcalled : w.AddsUp (w.record (.called store l.id round)) [(store, l.id, round)] :=
      World.addsUp_of_cons (m := .called store l.id round) trivial rfl
        (by rintro _ ⟨⟩; exact hround) fun _ => rfl
    refine .bind (Q := fun _ w₂ => w.AddsUp w₂ [(store, l.id, round)]) ?_ fun _ =>
      .of_forall fun w₂ h₂ => ?_
    · rintro w₁ _ w₂ rfl ha
      exact hcalled.trans (hcall l.callback _ trivial _ _ ha).1 nofun
    have hlonger : w.history.length ≤ w₂.history.length := by
      obtain ⟨since, hs, -⟩ := h₂
      rw [hs, List.length_append]
      exact Nat.le_add_left _ _
    refine (ih (hround.trans hlonger)).mono (fun _ h => h) fun _ w' h' => ?_
    refine h₂.trans h' fun c hc => ?_
    obtain ⟨l', -, rfl⟩ := List.mem_map.1 hc
    exact hround

theorem addsUp_notify (hcall : ∀ c, telling.Pairs (call c) (call' c)) (w : World σ)
    (store : StoreId) :
    Ensures (· = w) (notify call store) fun _ w' => ∃ during,
      w'.history = .told store :: (during ++ w.history) ∧
      Accounted w.audience w.history.length
        ((w.audience store).map fun id => (store, id, w.history.length)) during ∧
      ∀ other, w'.audience other = enrolled other (w.audience other) during := by
  unfold notify
  refine .of_get ?_
  rintro w rfl
  refine (addsUp_callAll hcall le_rfl).bind fun _ => .of_modify ?_
  rintro w₁ ⟨during, hhistory, haccounted, haudience⟩
  refine ⟨during, congrArg (Moment.told store :: ·) hhistory, ?_, haudience⟩
  rw [World.audience, List.map_map]
  exact haccounted

/-- A write that changes something adds up, and so it has told all listeners. -/
theorem addsUp_write (hcall : ∀ c, telling.Pairs (call c) (call' c)) (store : StoreId)
    (change : OrderedValue → Option OrderedValue) :
    Ensures (· = w) (write call store change) fun changed w' =>
      changed = false ∧ (w.state? store).bind change = none ∧ w' = w ∨
        changed = true ∧ ∃ v during, (w.state? store).bind change = some v ∧
          w.Tells w' store v during ∧ w.AddsUp w' [] := by
  unfold write
  refine .of_get ?_
  rintro w rfl
  split
  · next hnone => exact .of_pure fun _ he => .inl ⟨rfl, hnone, he⟩
  next v hv =>
  refine .bind (Q := fun _ w₁ => w₁ =
    (w.modifyStore store fun s => { s with value := v }).record (.changed store v))
    (.of_set fun _ _ => rfl) fun _ => .of_forall ?_
  rintro w₁ rfl
  have hsame (other : StoreId) : ((w.modifyStore store fun s => { s with value := v }).record
      (.changed store v)).audience other = w.audience other := by
    obtain ⟨root, hroot, -⟩ := Option.bind_eq_some_iff.1 hv
    obtain ⟨st, hst, -⟩ := Option.map_eq_some_iff.1 hroot
    refine (World.audience_modifyStore hst _ other).trans ?_
    split
    · next he => rw [he, World.audience_of_some hst]
    · rfl
  refine (addsUp_notify hcall _ store).bind fun _ => .of_pure ?_
  rintro w' ⟨during, hhistory, haccounted, haudience⟩
  rw [funext hsame] at haccounted
  change Accounted w.audience (w.history.length + 1)
    ((w.audience store).map fun id => (store, id, w.history.length + 1)) during at haccounted
  refine .inr ⟨rfl, v, during, hv, ⟨hhistory, haccounted.bracketed, haccounted.roll_round⟩,
    .told store :: (during ++ [.changed store v]), ?_, haccounted.write v, fun other => ?_⟩
  · rw [hhistory]
    simp [World.record, World.modifyStore]
  · rw [haudience, hsame, enrolled_cons (by simp [Moment.enrolment?]), enrolled_append]
    rfl

theorem pairs_telling_write (hcall : ∀ c, telling.Pairs (call c) (call' c)) (store : StoreId)
    (change : OrderedValue → Option OrderedValue) :
    telling.Pairs (write call store change) (write call' store change) := by
  refine fun w _ changed w' h => ⟨?_, False.elim⟩
  rcases addsUp_write hcall store change w changed w' rfl h with
    ⟨-, -, rfl⟩ | ⟨-, _, _, -, -, haddsUp⟩
  · exact telling.leads_refl w'
  · exact haddsUp

theorem pairs_telling_invoke [Html.Tokenizer] (depth : Nat) (c : Callback σ) :
    telling.Pairs (invoke depth c) (invoke depth c) :=
  Pairing.pairs_invoke (fun _ _ => rfl) (fun _ => pairs_telling_write) depth c

/-- Every entry that changes something counts. -/
theorem merges_of_setAll (hcall : ∀ c, telling.Pairs (call c) (call c))
    {entries : List (String × OrderedValue)} {w w' : World σ} {count : Nat}
    (hrun : setAll call h entries w = some (count, w')) :
    w.Merges call h entries count w' := by
  induction entries generalizing w count with
  | nil =>
    cases hrun
    exact .nil
  | cons entry rest ih =>
    obtain ⟨key, v⟩ := entry
    obtain ⟨changed, w₁, hset, hrun⟩ := bind_eq_some_iff.1 hrun
    obtain ⟨more, w₂, hrest, hpure⟩ := bind_eq_some_iff.1 hrun
    cases hpure
    rcases addsUp_write hcall h.store _ w changed w₁ rfl hset with
      ⟨rfl, hsame, rfl⟩ | ⟨rfl, new, during, hnew, htold, -⟩
    · exact .same hsame (ih hrest)
    · obtain ⟨old, hold, hchange⟩ := Option.bind_eq_some_iff.1 hnew
      exact .changed hset hold hchange htold (ih hrest)

/-- In every run each change of a store calls all that listen to it at that moment, each once, in
the order in which they subscribed and before the write returns, and nobody else is called; so while
nobody unsubscribes, every listener is called once for every change after it has subscribed. A write
that changes nothing leaves everything as it is, and a merge without middleware counts its entries
that changed something. -/
theorem tells_each_change_once [Html.Tokenizer] (depth : Nat) :
    (∀ (p : Program σ) (w w' : World σ), execute (invoke depth) p w = some ((), w') →
      ∃ since, w'.history = since ++ w.history ∧
        (∀ store, w'.audience store = enrolled store (w.audience store) since) ∧
        Accounted w.audience w.history.length [] since ∧
        (AllStay since → Tallied w.audience since)) ∧
    (∀ (e : Write) (w w' : World σ) (changed : Bool),
      e.run (invoke depth) w = some (changed, w') →
      changed = false ∧ (w.state? e.store).bind e.change? = none ∧ w' = w ∨
        changed = true ∧ ∃ old new during, w.state? e.store = some old ∧
          e.change? old = some new ∧ new ≠ old ∧ w.Tells w' e.store new during) ∧
    ∀ (h : Handle) (entries : State) (w w' : World σ) (count : Nat), middlewareOf w h = [] →
      merge (invoke depth) h entries w = some (count, w') →
      ∃ w₁, w.Merges (invoke depth) h entries.entries count w₁ ∧
        w' = w₁.record (.merged h (w.stateAt h) entries w.history.length) := by
  have hcall := pairs_telling_invoke (σ := σ) depth
  refine ⟨fun p w w' hrun => ?_, fun e w w' changed hrun => ?_,
    fun h entries w w' count hnone hrun => ?_⟩
  · have hpairs := Pairing.pairs_execute hcall (pairs_telling_write hcall)
      (Pairing.pairs_merge (fun _ _ => rfl) hcall (pairs_telling_write hcall)) p
    obtain ⟨since, hs, haccounted, haudience⟩ := (hpairs w trivial () w' hrun).1
    exact ⟨since, hs, haudience, haccounted, haccounted.tallied⟩
  · refine (addsUp_write hcall e.store e.change? w changed w' rfl (Write.write_of_run hrun)).imp id
      fun ⟨hchanged, new, during, hnew, htold, _⟩ => ?_
    obtain ⟨old, hold, hchange⟩ := Option.bind_eq_some_iff.1 hnew
    exact ⟨hchanged, old, new, during, hold, hchange, Write.change?_ne hchange, htold⟩
  · unfold merge at hrun
    obtain ⟨_, _, hget, hrun⟩ := bind_eq_some_iff.1 hrun
    cases hget
    obtain ⟨_, w₁, hthrough, hrun⟩ := bind_eq_some_iff.1 hrun
    rw [hnone] at hthrough
    cases hrun
    exact ⟨w₁, merges_of_setAll hcall hthrough, rfl⟩

/-- A listener writes back when it is first called, and has somebody else listen too, who is told of
the last one of three changes. What it writes does not count for a merge that comes too late. -/
theorem tells_each_change_once_of_write_back :
    let listener : Program Unit := .set (.root 0) "z" (.bool true) fun changed =>
      if changed then .subscribe 0 .done fun _ => .done else .done
    let e : Write := .set (.root 0) "n" (.ofValue (.string "1"))
    let entries : State := .ofFields [("n", .string "2"), ("z", .bool true)]
    let p : Program Unit := .set (.root 0) "n" (.string "1") fun _ =>
      .set (.root 0) "n" (.string "1") fun _ => .merge (.root 0) entries.1 fun _ => .done
    let w : World Unit := ((World.build {} (fun _ host => host) [] ()).addStore
      (.ofFields [("n", .string "0")]) fun _ host => host).1.modifyStore 0 fun s =>
        s.enlist (.script listener)
    (∃ w' since, execute (invoke 3) p w = some ((), w') ∧ w'.history = since ++ w.history ∧
      AllStay since ∧ callsAt 0 0 since = changes 0 since ∧ changes 0 since = 3 ∧
      callsAt 0 1 since = 1) ∧
    (∃ w' v during, e.run (invoke 3) w = some (true, w') ∧ w.Tells w' 0 v during) ∧
    ∃ w₁, middlewareOf w (.root 0) = [] ∧
      w.Merges (invoke 3) (.root 0) entries.entries 1 w₁ := by
  intro listener e entries p w
  obtain ⟨hexecute, hwrite, hmerge⟩ := tells_each_change_once (σ := Unit) 3
  have hrun : ∃ r ∈ execute (invoke 3) p w, AllStay r.2.history ∧ changes 0 r.2.history = 3 ∧
      callsAt 0 1 r.2.history = 1 := by decide +kernel
  have hset : ∃ r ∈ e.run (invoke 3) w, r.1 = true := by decide +kernel
  have hmerged : ∃ r ∈ merge (invoke 3) (.root 0) entries w, r.1 = 1 := by decide +kernel
  refine ⟨?_, ?_, ?_⟩
  · obtain ⟨⟨_, w'⟩, hrun, hstay, hchanges, hcalls⟩ := hrun
    obtain ⟨since, hs, -, -, htallied⟩ := hexecute p w w' hrun
    obtain rfl : w'.history = since := hs.trans (List.append_nil since)
    exact ⟨w', _, hrun, hs, hstay, (htallied hstay).old 0 0 Nat.one_pos, hchanges, hcalls⟩
  · obtain ⟨⟨_, w'⟩, hrun, rfl⟩ := hset
    rcases hwrite e w w' true hrun with ⟨hfalse, -⟩ | ⟨-, _, v, during, -, -, -, htold⟩
    · cases hfalse
    · exact ⟨w', v, during, hrun, htold⟩
  · obtain ⟨⟨_, w'⟩, hrun, rfl⟩ := hmerged
    obtain ⟨w₁, hmerges, -⟩ := hmerge (.root 0) entries w w' 1 rfl hrun
    exact ⟨w₁, rfl, hmerges⟩

end Run

end LiveMarkup
