import LiveMarkup.Proofs.Engine.Telling

/-!
# What a merge commits

Behind middleware, a merge through the root of a store takes keys away and writes fields, one after
the other, until the state is what the middleware made of it (`Middleware.fold`). Its listeners and
the middleware itself are called on the way. If none of them writes to the store (`World.Spared`),
no write of the merge disturbs another one: the merge changes the store once for each key under
which the old and the new state differ, and says so (`Run.merge_commits`).

`World.Stage` is what is known on the way, from the first call to the last write.
-/

namespace LiveMarkup

variable {σ : Type}

/-! ## Middleware on states alone -/

namespace Middleware

variable {old start : State} {layers rest : List (Middleware σ)} {layer : Middleware σ}
  {position : Nat}

/-- What middleware makes of a state. One that fails leaves it as it was. -/
def fold (old : State) (layers : List (Middleware σ)) (start : State) : State :=
  layers.foldl (fun next layer =>
    ((layer.apply next.1 old.1).toOption.map .ofFields).getD next) start

/-- What is reported of a middleware in a position, after those before it. -/
def failure? (old : State) (layers : List (Middleware σ)) (start : State) :
    Middleware σ × Nat → Option Diagnostic
  | (layer, position) =>
    match layer.apply (fold old (layers.take position) start).1 old.1 with
    | .ok _ => none
    | .error message => some (.middlewareFailed position message)

/-- What is reported of middleware: each that fails, with its position. -/
def failures (old : State) (layers : List (Middleware σ)) (start : State) : List Diagnostic :=
  layers.zipIdx.filterMap (failure? old layers start)

theorem fold_take_succ (old start : State) (h : layers.drop position = layer :: rest) :
    fold old (layers.take (position + 1)) start =
      ((layer.apply (fold old (layers.take position) start).1 old.1).toOption.map .ofFields).getD
        (fold old (layers.take position) start) := by
  have hlayer : layers[position]? = some layer := by
    rw [← List.head?_drop, h, List.head?_cons]
  rw [List.take_add_one, hlayer, fold, List.foldl_append]
  rfl

end Middleware

/-! ## On the way -/

/-- What has been reported, in order. -/
def reports (history : List Moment) : List Diagnostic := history.reverse.filterMap Moment.report?

namespace World

/-- A callback is a listener of a store, or what a middleware does when a state is merged. -/
def Involves (w : World σ) (store : StoreId) (old : State) (layers : List (Middleware σ))
    (c : Callback σ) : Prop :=
  (∃ st, w.stores[store]? = some st ∧ ∃ l ∈ st.listeners, l.callback = c) ∨
    ∃ layer ∈ layers, ∃ next : State, c = .script (layer.script next.1 old.1)

/-- A world that a merge into a store, behind middleware, may come to, and the moments that it has
recorded itself by then, latest first. Those of the calls it has made are not among them. -/
inductive Underway (call : Callback σ → Run σ Unit) (store : StoreId) (old : State)
    (layers : List (Middleware σ)) (w : World σ) : List Moment → World σ → Prop
  | start : Underway call store old layers w [] w
  | record {own : List Moment} {w₁ : World σ} (h : Underway call store old layers w own w₁)
      {m : Moment} (hm : m.report? = none) :
      Underway call store old layers w (m :: own) (w₁.record m)
  | report {own : List Moment} {w₁ : World σ} (h : Underway call store old layers w own w₁)
      {st : Store σ} (hst : w₁.stores[store]? = some st) (d : Diagnostic) :
      Underway call store old layers w (.reported d :: own) (w₁.report st.sink d)
  | put {own : List Moment} {w₁ : World σ} (h : Underway call store old layers w own w₁)
      (state : State) : Underway call store old layers w own
        (w₁.modifyStore store fun s => { s with value := state.root })
  | call {own own₀ : List Moment} {w₀ w₁ w₂ : World σ} {c : Callback σ}
      (h : Underway call store old layers w own w₁)
      (h₀ : Underway call store old layers w own₀ w₀) (hc : w₀.Involves store old layers c)
      (hcall : call c w₁ = some ((), w₂)) : Underway call store old layers w own w₂

/-- Listeners and middleware do not write to a store: whenever a merge calls one of them, the call
returns, and the store has not changed meanwhile. -/
def Spared (w : World σ) (call : Callback σ → Run σ Unit) (store : StoreId) (old : State)
    (layers : List (Middleware σ)) : Prop :=
  ∀ own₀ w₀ own w₁ c, Underway call store old layers w own₀ w₀ → w₀.Involves store old layers c →
    Underway call store old layers w own w₁ →
      ∃ w₂, call c w₁ = some ((), w₂) ∧ changes store w₂.history = changes store w₁.history

/-- On the way of a merge: the state of the store, what the merge has reported, and how often it has
changed the store. -/
structure Stage (w : World σ) (call : Callback σ → Run σ Unit) (store : StoreId) (old : State)
    (layers : List (Middleware σ)) (w₁ : World σ) (now : Fields) (reported : List Diagnostic)
    (count : Nat) : Prop where
  underway : ∃ own, Underway call store old layers w own w₁ ∧ reports own = reported
  state : ∃ s : State, w₁.state? store = some s.root ∧ s.1 = now
  changes : changes store w₁.history = changes store w.history + count

theorem Grows.state?_eq {w w' : World σ} {store : StoreId} (h : w.Grows w')
    (hsame : LiveMarkup.changes store w'.history = LiveMarkup.changes store w.history)
    {v : OrderedValue} (hv : w.state? store = some v) : w'.state? store = some v := by
  obtain ⟨since, hs, hstores⟩ := h
  obtain ⟨st, hst, rfl⟩ := Option.map_eq_some_iff.1 hv
  obtain ⟨st', hst', -, hvalue⟩ := hstores store st hst
  rw [state?, hst', Option.map_some, Option.some_inj]
  refine hvalue.resolve_right fun hchanged => ?_
  rw [hs, LiveMarkup.changes, List.countP_append] at hsame
  have hpos : 0 < since.countP (Moment.isChange store) :=
    List.countP_pos_iff.2 ⟨_, hchanged, Moment.isChange_iff.2 ⟨_, rfl⟩⟩
  unfold LiveMarkup.changes at hsame
  omega

namespace Stage

open Run

variable {call : Callback σ → Run σ Unit} {store : StoreId} {old : State} {now : Fields}
  {layers : List (Middleware σ)} {w w₁ : World σ} {reported : List Diagnostic} {count : Nat}

theorem inOrder (h : w.Stage call store old layers w₁ now reported count) : now.InOrder := by
  obtain ⟨s, -, rfl⟩ := h.state
  exact s.2.inOrder

theorem record (h : w.Stage call store old layers w₁ now reported count) {m : Moment}
    (hm : m.report? = none) (hchange : m.isChange store = false) :
    w.Stage call store old layers (w₁.record m) now reported count := by
  obtain ⟨⟨own, hown, hreported⟩, hstate, hchanges⟩ := h
  refine ⟨⟨m :: own, hown.record hm, ?_⟩, hstate, ?_⟩
  · rw [reports, List.reverse_cons, List.filterMap_append, List.filterMap_cons_none hm,
      List.filterMap_nil, List.append_nil]
    exact hreported
  · rw [← hchanges]
    exact List.countP_cons_of_neg (by rw [hchange]; exact Bool.false_ne_true)

/-- A failure of middleware is reported, and nothing else happens. -/
theorem reportsFailure (h : w.Stage call store old layers w₁ now reported count) (d : Diagnostic) :
    w.Stage call store old layers (match w₁.stores[store]? with
      | some s => w₁.report s.sink d
      | none => w₁) now (reported ++ [d]) count := by
  obtain ⟨⟨own, hown, hreported⟩, ⟨s, hs, hnow⟩, hchanges⟩ := h
  obtain ⟨st, hst, -⟩ := Option.map_eq_some_iff.1 hs
  rw [hst]
  refine ⟨⟨_, hown.report hst d, ?_⟩, ⟨s, hs, hnow⟩, hchanges⟩
  rw [← hreported, reports, List.reverse_cons, List.filterMap_append]
  rfl

section

variable (hspared : w.Spared call store old layers)
  (hgrows : ∀ c w₁ w₂, call c w₁ = some ((), w₂) → w₁.Grows w₂)

include hspared hgrows

/-- Calls on the way leave everything as it is. -/
theorem calls (h : w.Stage call store old layers w₁ now reported count) {own₀ : List Moment}
    {w₀ : World σ} {c : Callback σ} (h₀ : Underway call store old layers w own₀ w₀)
    (hc : w₀.Involves store old layers c) :
    ∃ w₂, call c w₁ = some ((), w₂) ∧ w.Stage call store old layers w₂ now reported count := by
  obtain ⟨⟨own, hown, hreported⟩, ⟨s, hs, hnow⟩, hchanges⟩ := h
  obtain ⟨w₂, hcall, hsame⟩ := hspared own₀ w₀ own w₁ c h₀ hc hown
  exact ⟨w₂, hcall, ⟨own, hown.call h₀ hc hcall, hreported⟩,
    ⟨s, (hgrows c w₁ w₂ hcall).state?_eq hsame hs, hnow⟩, hsame.trans hchanges⟩

theorem callAll (h : w.Stage call store old layers w₁ now reported count) {own₀ : List Moment}
    {w₀ : World σ} (h₀ : Underway call store old layers w own₀ w₀) (round : Nat)
    {ls : List (Listener σ)} (hls : ∀ l ∈ ls, w₀.Involves store old layers l.callback) :
    ∃ w₂, Run.callAll call store round ls w₁ = some ((), w₂) ∧
      w.Stage call store old layers w₂ now reported count := by
  induction ls generalizing w₁ with
  | nil => exact ⟨w₁, rfl, h⟩
  | cons l rest ih =>
    rw [List.forall_mem_cons] at hls
    obtain ⟨w₂, hcall, h₂⟩ := (h.record (m := .called store l.id round) rfl rfl).calls hspared
      hgrows h₀ hls.1
    obtain ⟨w₃, hrest, h₃⟩ := ih h₂ hls.2
    exact ⟨w₃, bind_eq_some_iff.2 ⟨(), _, rfl, bind_eq_some_iff.2 ⟨(), w₂, hcall, hrest⟩⟩, h₃⟩

theorem notify (h : w.Stage call store old layers w₁ now reported count) :
    ∃ w₂, Run.notify call store w₁ = some ((), w₂) ∧
      w.Stage call store old layers w₂ now reported count := by
  obtain ⟨own, hown, -⟩ := h.underway
  obtain ⟨s, hs, -⟩ := h.state
  obtain ⟨st, hst, -⟩ := Option.map_eq_some_iff.1 hs
  have hinvolved : ∀ l ∈ (w₁.stores[store]?.map Store.listeners).getD [],
      w₁.Involves store old layers l.callback := by
    rw [hst]
    exact fun l hl => .inl ⟨st, hst, l, hl, rfl⟩
  obtain ⟨w₂, hcalls, h₂⟩ := h.callAll hspared hgrows hown w₁.history.length hinvolved
  refine ⟨w₂.record (.told store), ?_, h₂.record rfl rfl⟩
  exact bind_eq_some_iff.2 ⟨_, _, rfl, bind_eq_some_iff.2 ⟨(), w₂, hcalls, rfl⟩⟩

/-- A write of the merge puts its state in place, and nothing else happens to the store. -/
theorem write (h : w.Stage call store old layers w₁ now reported count)
    (change : OrderedValue → Option OrderedValue) {s : State} (hs : w₁.state? store = some s.root)
    {next : Fields} (hchange : (change s.root).map Subtype.val = some (.object next)) :
    ∃ w₂, Run.write call store change w₁ = some (true, w₂) ∧
      w.Stage call store old layers w₂ next reported (count + 1) := by
  obtain ⟨⟨own, hown, hreported⟩, -, hchanges⟩ := h
  obtain ⟨st, hst, -⟩ := Option.map_eq_some_iff.1 hs
  obtain ⟨root, hroot, hnext⟩ := Option.map_eq_some_iff.1 hchange
  obtain ⟨made, rfl, rfl⟩ := State.exists_root_eq hnext
  have hput : w.Stage call store old layers
      ((w₁.modifyStore store fun s => { s with value := made.root }).record
        (.changed store made.root)) made.1 reported (count + 1) := by
    refine ⟨⟨_, (hown.put made).record rfl, ?_⟩, ⟨made, state?_modifyStore hst _, rfl⟩, ?_⟩
    · rw [← hreported, reports, List.reverse_cons, List.filterMap_append]
      exact List.append_nil _
    · rw [← Nat.add_assoc, ← hchanges]
      exact List.countP_cons_of_pos (beq_self_eq_true store)
  obtain ⟨w₂, hnotify, h₂⟩ := hput.notify hspared hgrows
  refine ⟨w₂, ?_, h₂⟩
  unfold Run.write
  refine bind_eq_some_iff.2 ⟨w₁, w₁, rfl, ?_⟩
  rw [hs, Option.bind_some, hroot]
  exact bind_eq_some_iff.2 ⟨(), _, rfl, bind_eq_some_iff.2 ⟨(), w₂, hnotify, rfl⟩⟩

theorem set (h : w.Stage call store old layers w₁ now reported count) (key : String)
    (v : OrderedValue) :
    ∃ changed w₂, Run.set call (.root store) key v w₁ = some (changed, w₂) ∧
      changed = !((now.find? key).any fun was => was.sameInState v.1) ∧
      w.Stage call store old layers w₂ (now.put key v.1) reported (count + changed.toNat) := by
  obtain ⟨s, hs, rfl⟩ := h.state
  have hput : (s.root.put? [] key v).map Subtype.val =
      if (s.1.find? key).any fun was => was.sameInState v.1 then none
      else some (.object (s.1.insert key v.1)) := OrderedValue.map_val_put?
  cases hsame : (s.1.find? key).any fun was => was.sameInState v.1 with
  | true =>
    rw [hsame, if_pos rfl, Option.map_eq_none_iff] at hput
    have hnow : s.1.put key v.1 = s.1 := by rw [Fields.put, hsame, if_pos rfl]
    refine ⟨false, w₁, write_eq_of_none ?_, rfl, hnow.symm ▸ h⟩
    exact (congrArg (Option.bind · _) hs).trans hput
  | false =>
    rw [hsame, if_neg Bool.false_ne_true] at hput
    have hnow : s.1.put key v.1 = s.1.insert key v.1 := by
      rw [Fields.put, hsame, if_neg Bool.false_ne_true]
    obtain ⟨w₂, hwrite, h₂⟩ := h.write hspared hgrows (fun root => root.put? [] key v) hs hput
    exact ⟨true, w₂, hwrite, rfl, hnow.symm ▸ h₂⟩

theorem setAll (h : w.Stage call store old layers w₁ now reported count) {entries : Fields}
    (hentries : entries.InOrder) {typed : List (String × OrderedValue)}
    (htyped : typed.map (fun entry => (entry.1, entry.2.1)) = entries) :
    ∃ w₂, Run.setAll call (.root store) typed w₁ = some ((now.changing entries).length, w₂) ∧
      w.Stage call store old layers w₂ (now.putAll entries) reported
        (count + (now.changing entries).length) := by
  induction typed generalizing w₁ now count entries with
  | nil =>
    subst htyped
    exact ⟨w₁, rfl, h⟩
  | cons entry typed ih =>
    obtain ⟨key, v⟩ := entry
    obtain ⟨rest, rfl⟩ : ∃ rest, entries = (key, v.1) :: rest := ⟨_, htyped.symm⟩
    obtain ⟨hkey, hrest⟩ := Fields.inOrder_cons_iff.1 hentries
    obtain ⟨changed, w₂, hset, hchanged, h₂⟩ := h.set hspared hgrows key v
    obtain ⟨w₃, hmore, h₃⟩ := ih h₂ hrest (List.cons.inj htyped).2
    rw [Fields.changing_put fun hmem => lt_irrefl _ (hkey key hmem)] at hmore h₃
    have hlength : (now.changing ((key, v.1) :: rest)).length =
        changed.toNat + (now.changing rest).length := by
      rw [Fields.changing, List.filter_cons, ← hchanged]
      cases changed with
      | false => exact (Nat.zero_add _).symm
      | true => exact Nat.add_comm _ 1
    have hcount (more : Nat) : (if changed then more + 1 else more) = changed.toNat + more := by
      cases changed with
      | false => exact (Nat.zero_add _).symm
      | true => exact Nat.add_comm _ 1
    rw [hlength, ← Nat.add_assoc]
    refine ⟨w₃, bind_eq_some_iff.2 ⟨changed, w₂, hset, bind_eq_some_iff.2 ⟨_, w₃, hmore, ?_⟩⟩, h₃⟩
    rw [hcount]
    rfl

theorem remove (h : w.Stage call store old layers w₁ now reported count) {key : String}
    (hkey : key ∈ now.keys) :
    ∃ v w₂, Run.remove call (.root store) key w₁ = some (some v, w₂) ∧
      w.Stage call store old layers w₂ (now.erase key) reported (count + 1) := by
  obtain ⟨s, hs, rfl⟩ := h.state
  obtain ⟨v, hv⟩ := Option.isSome_iff_exists.1 (Fields.contains_eq_true_iff.2 hkey)
  have htake : s.root.1.take? [] key = some (v, .object (s.1.erase key)) := by
    change (s.1.find? key).map _ = _
    rw [hv]
    rfl
  rw [← OrderedValue.map_val_take?, Option.map_eq_some_iff] at htake
  obtain ⟨⟨was, left⟩, htake, htaken⟩ := htake
  obtain ⟨-, hleft⟩ := Prod.mk.inj htaken
  obtain ⟨w₂, hwrite, h₂⟩ := h.write hspared hgrows
    (fun root => (root.take? [] key).map Prod.snd) hs (by rw [htake]; exact congrArg some hleft)
  refine ⟨was, w₂, ?_, h₂⟩
  unfold Run.remove
  refine bind_eq_some_iff.2 ⟨w₁, w₁, rfl, ?_⟩
  have hfound : ((w₁.state? store).bind fun root => root.take? [] key) =
      some (was, left) := by rw [hs, Option.bind_some, htake]
  simp only [Handle.root, hfound]
  exact bind_eq_some_iff.2 ⟨true, w₂, hwrite, rfl⟩

theorem removeAll (h : w.Stage call store old layers w₁ now reported count) {keys : List String}
    (hnodup : keys.Nodup) (hkeys : ∀ key ∈ keys, key ∈ now.keys) :
    ∃ w₂, Run.removeAll call (.root store) keys w₁ = some (keys.length, w₂) ∧
      w.Stage call store old layers w₂ (now.keep fun key => key ∉ keys) reported
        (count + keys.length) := by
  induction keys generalizing w₁ now count with
  | nil =>
    rw [Fields.keep_of_forall (by simp)]
    exact ⟨w₁, rfl, h⟩
  | cons key rest ih =>
    obtain ⟨hkey, hrest⟩ := List.nodup_cons.1 hnodup
    rw [List.forall_mem_cons] at hkeys
    obtain ⟨v, w₂, hremove, h₂⟩ := h.remove hspared hgrows hkeys.1
    obtain ⟨w₃, hmore, h₃⟩ := ih h₂ hrest fun k hk => by
      have hne : key ≠ k := by
        rintro rfl
        exact hkey hk
      rw [← Fields.contains_eq_true_iff, Fields.contains, h.inOrder.find?_erase, if_neg hne]
      exact Fields.contains_eq_true_iff.2 (hkeys.2 k hk)
    have hkeep : (now.erase key).keep (fun k => k ∉ rest) =
        now.keep fun k => k ∉ key :: rest := by
      rw [h.inOrder.keep_erase]
      congr 1
      funext k
      by_cases he : k = key <;> simp [he]
    rw [hkeep] at h₃
    rw [List.length_cons, Nat.add_comm rest.length, ← Nat.add_assoc]
    refine ⟨w₃, bind_eq_some_iff.2 ⟨some v, w₂, hremove,
      bind_eq_some_iff.2 ⟨_, w₃, hmore, ?_⟩⟩, h₃⟩
    rw [Nat.add_comm]
    rfl

/-- From a position on, middleware goes on with what the middleware before it has made. -/
theorem applyMiddleware (h : w.Stage call store old layers w₁ now reported count)
    (start : State) (position : Nat) {rest : List (Middleware σ)}
    (hrest : layers.drop position = rest) :
    ∃ w₂, Run.applyMiddleware call store old position rest
        (Middleware.fold old (layers.take position) start) w₁ =
        some (Middleware.fold old layers start, w₂) ∧
      w.Stage call store old layers w₂ now
        (reported ++ (rest.zipIdx position).filterMap (Middleware.failure? old layers start))
        count := by
  induction rest generalizing w₁ reported position with
  | nil =>
    rw [List.take_of_length_le (List.drop_eq_nil_iff.1 hrest)]
    refine ⟨w₁, rfl, ?_⟩
    rw [List.zipIdx_nil, List.filterMap_nil, List.append_nil]
    exact h
  | cons layer rest ih =>
    have hnext := Middleware.fold_take_succ old start hrest
    have hrest' : layers.drop (position + 1) = rest := by
      rw [← List.drop_drop, hrest, List.drop_one, List.tail_cons]
    have hlayer : layer ∈ layers := List.mem_of_mem_drop (hrest ▸ List.mem_cons_self)
    rw [Run.applyMiddleware, List.zipIdx_cons]
    obtain ⟨w₂, hcall, h₂⟩ := h.calls hspared hgrows .start (.inr ⟨layer, hlayer, _, rfl⟩)
    cases hmade : layer.apply (Middleware.fold old (layers.take position) start).1 old.1 with
    | ok made =>
      rw [hmade] at hnext
      obtain ⟨w₃, hmore, h₃⟩ := ih h₂ (position + 1) hrest'
      rw [hnext] at hmore
      refine ⟨w₃, bind_eq_some_iff.2 ⟨(), w₂, hcall, hmore⟩, ?_⟩
      rw [List.filterMap_cons_none (by rw [Middleware.failure?, hmade])]
      exact h₃
    | error message =>
      rw [hmade] at hnext
      obtain ⟨w₃, hmore, h₃⟩ := ih (h₂.reportsFailure
        (.middlewareFailed position message)) (position + 1) hrest'
      rw [hnext] at hmore
      refine ⟨w₃, bind_eq_some_iff.2 ⟨(), w₂, hcall,
        bind_eq_some_iff.2 ⟨(), _, rfl, hmore⟩⟩, ?_⟩
      rw [List.filterMap_cons_some (by rw [Middleware.failure?, hmade])]
      rw [List.append_assoc] at h₃
      exact h₃

/-- A merge writes what the middleware has made, and counts the keys under which it differs. -/
theorem mergeThrough (h : w.Stage call store old layers w old.1 [] 0) {entries made : State}
    (hmade : Middleware.fold old layers (old.merge entries) = made) :
    ∃ w₂ after, Run.mergeThrough call (.root store) old entries layers w =
        some ((old.1.differing made.1).card, w₂) ∧
      w.Stage call store old layers w₂ after (Middleware.failures old layers (old.merge entries))
        (old.1.differing made.1).card ∧
      ∀ key, after.agreesAt made.1 key = true := by
  have hold := old.2.inOrder
  cases layers with
  | nil =>
    have hentries := entries.2.inOrder
    have hcard := Fields.card_differing hentries (fun _ _ => Eq.refl true) hold
    rw [Fields.keep_of_forall fun _ _ => rfl] at hcard
    obtain rfl : old.merge entries = made := hmade
    obtain ⟨w₂, hset, h₂⟩ := h.setAll hspared hgrows hentries entries.map_entries
    have hlength : (old.1.differing (old.merge entries).1).card =
        (old.1.changing entries.1).length := by
      rw [State.merge]
      simpa using hcard
    rw [Nat.zero_add] at h₂
    rw [hlength]
    exact ⟨w₂, _, hset, h₂, Fields.agreesAt_putAll hentries old.1⟩
  | cons layer rest =>
    have hinOrder := made.2.inOrder
    obtain ⟨w₁, happly, h₁⟩ := h.applyMiddleware hspared hgrows (old.merge entries) 0 rfl
    rw [hmade] at happly
    obtain ⟨w₂, hremove, h₂⟩ := h₁.removeAll hspared hgrows
      (hold.nodup_keys.filter fun key => !made.1.contains key)
      fun key hkey => List.mem_of_mem_filter hkey
    rw [Fields.keep_notMem_filter] at h₂
    obtain ⟨w₃, hset, h₃⟩ := h₂.setAll hspared hgrows hinOrder made.map_entries
    have hcard := Fields.card_differing hinOrder
      (fun key (h : made.1.contains key = true) => h) hold
    have hagrees := Fields.agreesAt_putAll hinOrder (old.1.keep made.1.contains)
    rw [hold.merge_keep hinOrder] at hcard hagrees
    rw [hcard]
    rw [Nat.zero_add] at h₃
    exact ⟨w₃, _, bind_eq_some_iff.2 ⟨made, w₁, happly, bind_eq_some_iff.2 ⟨_, w₂, hremove,
      bind_eq_some_iff.2 ⟨_, w₃, hset, rfl⟩⟩⟩, h₃, hagrees⟩

end

end Stage

end World

/-! ## Listeners that only look -/

/-- No command of a program changes anything but the state of the caller. -/
inductive Program.OnlyLooks : Program σ → Prop
  | done : OnlyLooks .done
  | ask {next : σ → Program σ} (h : ∀ host, (next host).OnlyLooks) : OnlyLooks (.ask next)
  | tell {f : σ → σ} {next : Program σ} (h : next.OnlyLooks) : OnlyLooks (.tell f next)
  | value {handle : Handle} {next : Option Value → Program σ} (h : ∀ v, (next v).OnlyLooks) :
      OnlyLooks (.value handle next)
  | element {s : SessionId} {next : Option NodeId → Program σ} (h : ∀ id, (next id).OnlyLooks) :
      OnlyLooks (.element s next)
  | outerHtml {s : SessionId} {next : Option String → Program σ} (h : ∀ t, (next t).OnlyLooks) :
      OnlyLooks (.outerHtml s next)

namespace Run

variable {w : World σ} {store : StoreId} {st : Store σ} {old : State} {depth : Nat}
  {layers : List (Middleware σ)}

theorem execute_of_onlyLooks [Html.Tokenizer] {call : Callback σ → Run σ Unit} {p : Program σ}
    (h : p.OnlyLooks) (w : World σ) :
    ∃ host, execute call p w = some ((), { w with host := host }) := by
  induction h generalizing w with
  | done => exact ⟨w.host, rfl⟩
  | ask _ ih => exact ih w.host w
  | @tell f _ _ ih => exact ih { w with host := f w.host }
  | @value handle _ _ ih => exact ih (w.value? handle) w
  | @element s _ _ ih => exact ih (w.element? s) w
  | @outerHtml s _ _ ih => exact ih (w.outerHtml? s) w

section

variable (hst : w.stores[store]? = some st)
  (hlisteners : ∀ l ∈ st.listeners, ∃ p, l.callback = .script p ∧ p.OnlyLooks)
  (hlayers : ∀ layer ∈ layers, ∀ next, (layer.script next old.1).OnlyLooks)

include hlisteners hlayers

theorem invoke_of_involves [Html.Tokenizer] {w₀ : World σ} {c : Callback σ}
    (hc : w₀.Involves store old layers c)
    (h₀ : w₀.stores[store]?.map Store.listeners = some st.listeners) (w₁ : World σ) :
    ∃ host, invoke (depth + 1) c w₁ = some ((), { w₁ with host := host }) := by
  rcases hc with ⟨st₀, hst₀, l, hl, rfl⟩ | ⟨layer, hlayer, next, rfl⟩
  · rw [hst₀, Option.map_some, Option.some_inj] at h₀
    obtain ⟨p, hp, hlooks⟩ := hlisteners l (h₀ ▸ hl)
    rw [hp]
    exact execute_of_onlyLooks hlooks w₁
  · exact execute_of_onlyLooks (hlayers layer hlayer next.1) w₁

include hst

theorem listeners_of_underway [Html.Tokenizer] {own : List Moment} {w₁ : World σ}
    (h : World.Underway (invoke (depth + 1)) store old layers w own w₁) :
    w₁.stores[store]?.map Store.listeners = some st.listeners := by
  induction h with
  | start => rw [hst, Option.map_some]
  | record _ _ ih | report _ _ _ ih => exact ih
  | @put _ w₁ _ state ih =>
    change ((w₁.stores.modify store _)[store]?).map Store.listeners = _
    rw [List.getElem?_modify_eq, ← ih]
    cases w₁.stores[store]? <;> rfl
  | call _ _ hc hcall ih ih₀ =>
    obtain ⟨host, hrun⟩ := invoke_of_involves hlisteners hlayers hc ih₀ _
    obtain ⟨-, rfl⟩ := Prod.mk.inj (Option.some.inj (hcall.symm.trans hrun))
    exact ih

/-- Listeners and middleware that only look do not write. -/
theorem spared_of_onlyLooks [Html.Tokenizer] (hd : 0 < depth) :
    w.Spared (invoke depth) store old layers := by
  obtain ⟨depth, rfl⟩ := Nat.exists_eq_succ_of_ne_zero (Nat.ne_of_gt hd)
  intro own₀ w₀ own w₁ c h₀ hc h₁
  obtain ⟨host, hrun⟩ := invoke_of_involves hlisteners hlayers hc
    (listeners_of_underway hst hlisteners hlayers h₀) w₁
  exact ⟨_, hrun, rfl⟩

end

end Run

/-! ## Merging -/

/-- Every run grows. -/
def growing : Pairing σ :=
  { rounds with
    Leads := World.Grows
    trans := .trans
    idles := .of_idles
    admits := fun _ _ => trivial
    trusts := fun _ h => h
    enlists := World.grows_enlist
    dismisses := World.grows_dismiss
    addsStore := World.grows_addStore }

namespace Run

variable {w : World σ} {store : StoreId} {st : Store σ} {old entries : State} {depth : Nat}

theorem grows_of_invoke [Html.Tokenizer] (depth : Nat) (c : Callback σ) (w w' : World σ)
    (h : invoke depth c w = some ((), w')) : w.Grows w' := by
  have hpairs : growing.Pairs (invoke depth c) (invoke depth c) :=
    Pairing.pairs_invoke (fun _ _ => rfl) (fun _ => pairs_write_of_grows fun h => h) depth c
  exact (hpairs w trivial () w' h).1

theorem stateAt_root (h : w.state? store = some old.root) : w.stateAt (.root store) = old := by
  refine Subtype.ext ?_
  change (((w.state? store).bind fun v => some v.1).bind Value.fields?).getD [] = old.1
  rw [h]
  rfl

theorem middlewareOf_root_eq (hst : w.stores[store]? = some st) :
    middlewareOf w (.root store) = st.middleware := by
  change (w.stores[store]?.map Store.middleware).getD [] = _
  rw [hst]
  rfl

/-- A merge through the root of a store, whose listeners and middleware do not write to it, returns.
Afterwards the state agrees under every key with what the middleware made of the old state and the
entries, and keys that it dropped are gone. Of all diagnostics, the merge itself has reported those
of the middleware that failed. It has changed the store once for each key under which what was made
differs from the old state, and has said so; and as often it has called everybody who listened all
the time. -/
theorem merge_commits [Html.Tokenizer] (hst : w.stores[store]? = some st)
    (hvalue : st.value = old.root)
    (hspared : w.Spared (invoke depth) store old st.middleware) :
    let made := Middleware.fold old st.middleware (old.merge entries)
    ∃ (w' : World σ) (after : State) (own since : List Moment),
      merge (invoke depth) (.root store) entries w = some ((old.1.differing made.1).card, w') ∧
      w'.state? store = some after.root ∧ (∀ key, after.1.agreesAt made.1 key = true) ∧
      (∀ key, made.1.contains key = false → after.1.contains key = false) ∧
      World.Underway (invoke depth) store old st.middleware w own w' ∧
      reports own = Middleware.failures old st.middleware (old.merge entries) ∧
      w'.history = since ++ w.history ∧ changes store since = (old.1.differing made.1).card ∧
      ∀ id count, Attends store id count (w.audience store) since →
        callsOf store id since = count * (old.1.differing made.1).card := by
  intro made
  have hstate : w.state? store = some old.root := by rw [World.state?, hst, ← hvalue]; rfl
  have hstart : w.Stage (invoke depth) store old st.middleware w old.1 [] 0 :=
    ⟨⟨[], .start, rfl⟩, ⟨old, hstate, rfl⟩, rfl⟩
  obtain ⟨w₁, after, hthrough, hstage, hagrees⟩ := hstart.mergeThrough hspared
    (grows_of_invoke depth) (Eq.refl made)
  have hmerge : merge (invoke depth) (.root store) entries w = some ((old.1.differing made.1).card,
      w₁.record (.merged (.root store) old entries w.history.length)) := by
    refine bind_eq_some_iff.2 ⟨w, w, rfl, ?_⟩
    rw [stateAt_root hstate, middlewareOf_root_eq hst]
    exact bind_eq_some_iff.2 ⟨_, w₁, hthrough, rfl⟩
  obtain ⟨⟨own, hown, hreported⟩, ⟨after, hafter, rfl⟩, hchanges⟩ := hstage.record
    (m := .merged (.root store) old entries w.history.length) rfl rfl
  have hcall := pairs_telling_invoke (σ := σ) depth
  obtain ⟨since, hs, haccounted, -⟩ := (Pairing.pairs_merge (fun _ _ => rfl) hcall
    (pairs_telling_write hcall) (.root store) entries w trivial _ _ hmerge).1
  have hsince : changes store since = (old.1.differing made.1).card := by
    rw [hs, changes, changes, List.countP_append] at hchanges
    unfold changes
    omega
  refine ⟨_, after, own, since, hmerge, hafter, hagrees, fun key hkey => ?_, hown, hreported, hs,
    hsince, fun id count hattends => ?_⟩
  · rw [Fields.contains_eq_of_agreesAt (hagrees key), hkey]
  · rw [haccounted.callsOf_eq hattends, hsince]

/-- A middleware fails, and another one takes a field away and adds one. A field is written over
with another number that counts as the same. -/
theorem merge_commits_behind_failure :
    let rejecting : Middleware Nat := ⟨fun _ _ => .done, fun _ _ => .error "rejected"⟩
    let rewriting : Middleware Nat := ⟨fun _ _ => .done, fun next _ =>
      .ok ((next.erase "draft").insert "touched" (.bool true))⟩
    let old : State := .ofFields
      [("count", .number (.int 1)), ("draft", .null), ("n", .number (.int 1))]
    let entries : State := .ofFields [("count", .number (.int 2)),
      ("n", .number (.float ⟨false, FiniteDouble.unitsPerOne⟩))]
    let w : World Nat := ((World.build {} (fun _ host => host) [] 0).addStore old
      fun _ host => host).1.modifyStore 0 fun s =>
        { s.enlist (.script (.tell (· + 1) .done)) with middleware := [rejecting, rewriting] }
    w.Spared (invoke 1) 0 old [rejecting, rewriting] ∧
      ∃ (w' : World Nat) (after : State) (own since : List Moment),
        merge (invoke 1) (.root 0) entries w = some (3, w') ∧
        w'.state? 0 = some after.root ∧
        after.1.contains "draft" = false ∧ after.1.contains "touched" = true ∧
        World.Underway (invoke 1) 0 old [rejecting, rewriting] w own w' ∧
        reports own = [.middlewareFailed 0 "rejected"] ∧
        w'.history = since ++ w.history ∧ callsOf 0 0 since = 3 := by
  intro rejecting rewriting old entries w
  have hspared : w.Spared (invoke 1) 0 old [rejecting, rewriting] := by
    refine spared_of_onlyLooks rfl (fun l hl => ?_) (fun layer hlayer next => ?_) Nat.one_pos
    · obtain rfl := List.mem_singleton.1 hl
      exact ⟨_, rfl, .tell .done⟩
    · rcases List.mem_pair.1 hlayer with rfl | rfl <;> exact .done
  have hstay : ∃ r ∈ merge (invoke 1) (.root 0) entries w,
      ∀ m ∈ r.2.history, m.enrolment? ≠ some 0 := by decide +kernel
  have hcard : (old.1.differing (Middleware.fold old [rejecting, rewriting]
      (old.merge entries)).1).card = 3 := by decide +kernel
  have hfailures : Middleware.failures old [rejecting, rewriting] (old.merge entries) =
      [.middlewareFailed 0 "rejected"] := by decide +kernel
  have hmade : (Middleware.fold old [rejecting, rewriting]
      (old.merge entries)).1.contains "touched" = true := by decide +kernel
  have hst : w.stores[0]? = some _ := rfl
  obtain ⟨w', after, own, since, hmerge, hstate, hagrees, hgone, hown, hreports, hs, -, hcalls⟩ :=
    merge_commits hst rfl hspared
  rw [hcard] at hmerge hcalls
  obtain ⟨⟨_, _⟩, hrun, hstay⟩ := hstay
  obtain ⟨-, rfl⟩ := Prod.mk.inj (Option.some.inj (hmerge.symm.trans hrun))
  obtain rfl : w'.history = since := hs.trans (List.append_nil since)
  refine ⟨hspared, w', after, own, _, hmerge, hstate,
    hgone "draft" (by decide +kernel), ?_, hown, hreports.trans hfailures, hs, ?_⟩
  · rw [Fields.contains_eq_of_agreesAt (hagrees "touched")]
    exact hmade
  · exact hcalls 0 1 (attends_of_forall hstay)

end Run

end LiveMarkup
