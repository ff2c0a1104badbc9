import LiveMarkup.Proofs.Engine.Rounds
import LiveMarkup.Proofs.Engine.Unfolding

/-!
# The runs behind the records of calls

A record of a call stands for a run of the callback. A round runs the callbacks of its listeners one
after the other, each in the world with the record of its call, and goes on where the callback has
ended (`Run.callAll_eq_some_iff`). And in every run, whatever it writes and however its calls are
nested, each record of a call was made for such a run of the callback of a listener that the store
had when it changed (`Run.backs_execute`).
-/

namespace LiveMarkup

variable {σ : Type}

namespace Run

variable {call : Callback σ → Run σ Unit} {store : StoreId} {round : Nat} {w w' : World σ}
  {listeners : List (Listener σ)}

/-- Listeners are called one after the other: the call of each is recorded, and its callback is run
in the world with the record. -/
inductive CallsEach (call : Callback σ → Run σ Unit) (store : StoreId) (round : Nat) :
    World σ → List (Listener σ) → World σ → Prop
  | nil {w : World σ} : CallsEach call store round w [] w
  | cons {w w₁ w' : World σ} {l : Listener σ} {rest : List (Listener σ)}
      (hrun : call l.callback (w.record (.called store l.id round)) = some ((), w₁))
      (hrest : CallsEach call store round w₁ rest w') : CallsEach call store round w (l :: rest) w'

/-- A round runs the callbacks of its listeners, and nothing else. -/
theorem callAll_eq_some_iff :
    callAll call store round listeners w = some ((), w') ↔
      CallsEach call store round w listeners w' := by
  constructor
  · intro h
    induction listeners generalizing w with
    | nil =>
      cases h
      exact .nil
    | cons l rest ih =>
      obtain ⟨_, _, hrecord, h⟩ := bind_eq_some_iff.1 h
      cases hrecord
      obtain ⟨_, w₁, hrun, hrest⟩ := bind_eq_some_iff.1 h
      exact .cons hrun (ih hrest)
  · intro h
    induction h with
    | nil => rfl
    | cons hrun _ ih => exact bind_eq_some_iff.2 ⟨(), _, rfl, bind_eq_some_iff.2 ⟨(), _, hrun, ih⟩⟩

/-- Telling of a change is a round for the listeners that the store has. -/
theorem notify_eq_some_iff : notify call store w = some ((), w') ↔
    ∃ w₁, CallsEach call store w.history.length w
      ((w.stores[store]?.map Store.listeners).getD []) w₁ ∧ w' = w₁.record (.told store) := by
  constructor
  · intro h
    obtain ⟨_, _, hget, h⟩ := bind_eq_some_iff.1 h
    cases hget
    obtain ⟨_, w₁, hcalls, h⟩ := bind_eq_some_iff.1 h
    cases h
    exact ⟨w₁, callAll_eq_some_iff.1 hcalls, rfl⟩
  · rintro ⟨w₁, hcalls, rfl⟩
    exact bind_eq_some_iff.2 ⟨w, w, rfl,
      bind_eq_some_iff.2 ⟨(), w₁, callAll_eq_some_iff.2 hcalls, rfl⟩⟩

end Run

/-! ## Records -/

namespace World

variable [Html.Tokenizer] {w w' w'' : World σ} {store : StoreId} {id : SubscriptionId} {round : Nat}
  {past history : List Moment}

/-- What stands behind the record of a call that was made after `past`. When the change of the round
was recorded (in the world `wc`) the store had a listener of that name. The callback of the listener
was run in the world with the record of the call, and the run ended before the `history` did. -/
inductive Backed (σ : Type) [Html.Tokenizer] (store : StoreId) (id : SubscriptionId)
    (round : Nat) (past history : List Moment) : Prop
  | of_run (wc w w' : World σ) (st : Store σ) (callback : Callback σ) (depth : Nat)
      (hround : wc.history.length = round) (hpast : wc.history <:+ past)
      (hst : wc.stores[store]? = some st) (hlistens : ⟨id, callback⟩ ∈ st.listeners)
      (hw : w.history = past)
      (hrun : Run.invoke depth callback (w.record (.called store id round)) = some ((), w'))
      (hends : w'.history <:+ history)

/-- The history goes on, and behind each new record of a call there is a run of the callback. -/
def Backs (w w' : World σ) : Prop :=
  w.history <:+ w'.history ∧ ∀ later store id round past,
    w'.history = later ++ .called store id round :: past → w.history <:+ past →
      Backed σ store id round past w'.history

theorem Backed.mono (h : Backed σ store id round past history) {history' : List Moment}
    (hs : history <:+ history') : Backed σ store id round past history' := by
  obtain ⟨wc, w, w', st, callback, depth, hround, hpast, hst, hlistens, hw, hrun, hends⟩ := h
  exact ⟨wc, w, w', st, callback, depth, hround, hpast, hst, hlistens, hw, hrun, hends.trans hs⟩

omit [Html.Tokenizer] in
/-- A record in a longer history was made before the history got longer, or after. -/
theorem suffix_or_exists_of_append {earlier later : List Moment} {m : Moment}
    (hs : earlier <:+ history) (h : history = later ++ m :: past) :
    earlier <:+ past ∨ ∃ between, earlier = between ++ m :: past := by
  have hm : m :: past <:+ history := h ▸ List.suffix_append later (m :: past)
  rcases List.suffix_or_suffix_of_suffix hs hm with hle | hle
  · rcases List.suffix_cons_iff.1 hle with rfl | hle
    · exact .inr ⟨[], rfl⟩
    · exact .inl hle
  · obtain ⟨between, rfl⟩ := hle
    exact .inr ⟨between, rfl⟩

theorem Backs.trans (h : w.Backs w') (h' : w'.Backs w'') : w.Backs w'' := by
  refine ⟨h.1.trans h'.1, fun later store id round past hhistory hpast => ?_⟩
  rcases suffix_or_exists_of_append h'.1 hhistory with hlater | ⟨between, hbetween⟩
  · exact h'.2 later store id round past hhistory hlater
  · exact (h.2 between store id round past hbetween hpast).mono h'.1

/-- Where nobody is called, nothing has to stand behind a record. -/
theorem backs_of_calls_eq_nil (since : List Moment) (hs : w'.history = since ++ w.history)
    (hcalls : calls since = []) : w.Backs w' := by
  refine ⟨hs ▸ List.suffix_append _ _, fun later store id round past hhistory hpast => ?_⟩
  obtain ⟨between, rfl⟩ := hpast
  obtain rfl : since = later ++ .called store id round :: between := by
    refine List.append_cancel_right (hs.symm.trans (hhistory.trans ?_))
    rw [List.append_assoc, List.cons_append]
  simp [calls, Moment.call?] at hcalls

theorem backs_of_cons {m : Moment} (hs : w'.history = m :: w.history) (hm : m.call? = none) :
    w.Backs w' :=
  backs_of_calls_eq_nil [m] hs (List.filterMap_cons_none hm)

theorem Backs.of_idles (h : w.Idles w') : w.Backs w' := by
  obtain ⟨since, hs, hidle⟩ := h.history
  refine backs_of_calls_eq_nil since hs (List.filterMap_eq_nil_iff.2 fun m hm => ?_)
  exact (hidle m hm).call?_eq

end World

/-- Every run has runs of callbacks behind the calls that it records. -/
def backing (σ : Type) [Html.Tokenizer] : Pairing σ :=
  { rounds with
    Leads := World.Backs
    trans := .trans
    idles := .of_idles
    admits := fun _ _ => trivial
    trusts := fun _ h => h
    enlists := fun _ _ => World.backs_of_cons rfl rfl
    dismisses := fun _ => World.backs_of_cons rfl rfl
    addsStore := fun _ _ _ => World.backs_of_calls_eq_nil [] rfl rfl }

namespace Run

variable [Html.Tokenizer] {store : StoreId} {w w' wc : World σ} {st : Store σ} {depth : Nat}
  {listeners : List (Listener σ)}

/-- Behind the calls of a round there are runs, if its listeners are some of those that the store
had at the change. -/
theorem CallsEach.backs (hcall : ∀ c, (backing σ).Pairs (invoke depth c) (invoke depth c))
    (hst : wc.stores[store]? = some st) (hlisten : ∀ l ∈ listeners, l ∈ st.listeners)
    (hpast : wc.history <:+ w.history)
    (h : CallsEach (invoke depth) store wc.history.length w listeners w') : w.Backs w' := by
  induction h with
  | nil => exact (backing σ).leads_refl _
  | @cons w w₁ w' l rest hrun _ ih =>
    rw [List.forall_mem_cons] at hlisten
    have hafter : World.Backs (w.record (.called store l.id wc.history.length)) w₁ :=
      (hcall l.callback _ trivial () w₁ hrun).1
    have hsuffix : w.history <:+ w₁.history := (List.suffix_cons _ _).trans hafter.1
    have hfirst : w.Backs w₁ := by
      refine ⟨hsuffix, fun later store' id round past hhistory hafter' => ?_⟩
      rcases World.suffix_or_exists_of_append hafter.1 hhistory with hlater | ⟨between, hrecord⟩
      · exact hafter.2 later store' id round past hhistory hlater
      -- the record is the one of this call, since nothing else is recorded before the callback runs
      · obtain ⟨hm, rfl⟩ : Moment.called store l.id wc.history.length = .called store' id round ∧
            w.history = past := by
          cases between with
          | nil => exact List.cons.inj hrecord
          | cons m between =>
            have hlonger : w.history = between ++ .called store' id round :: past :=
              (List.cons.inj hrecord).2
            have hle := hafter'.length_le
            rw [hlonger, List.length_append, List.length_cons] at hle
            omega
        cases hm
        exact ⟨wc, w, w₁, st, l.callback, depth, rfl, hpast, hst, hlisten.1, rfl, hrun,
          List.suffix_rfl⟩
    exact hfirst.trans (ih hlisten.2 (hpast.trans hsuffix))

theorem backs_write (hcall : ∀ c, (backing σ).Pairs (invoke depth c) (invoke depth c))
    (store : StoreId) (change : OrderedValue → Option OrderedValue) {changed : Bool}
    (h : write (invoke depth) store change w = some (changed, w')) : w.Backs w' := by
  unfold write at h
  obtain ⟨_, _, hget, h⟩ := bind_eq_some_iff.1 h
  cases hget
  cases hv : (w.state? store).bind change with
  | none =>
    rw [hv] at h
    cases h
    exact (backing σ).leads_refl w
  | some v =>
    rw [hv] at h
    obtain ⟨_, w₁, hset, h⟩ := bind_eq_some_iff.1 h
    obtain ⟨_, w₂, hnotify, hpure⟩ := bind_eq_some_iff.1 h
    cases hpure
    cases hset
    obtain ⟨root, hroot, -⟩ := Option.bind_eq_some_iff.1 hv
    obtain ⟨st, hst, -⟩ := Option.map_eq_some_iff.1 hroot
    obtain ⟨w₃, hcalls, rfl⟩ := notify_eq_some_iff.1 hnotify
    have hstored : ((w.modifyStore store fun s => { s with value := v }).record
        (.changed store v)).stores[store]? = some { st with value := v } := by
      change (w.stores.modify store _)[store]? = _
      rw [List.getElem?_modify_eq, hst]
      rfl
    rw [hstored] at hcalls
    have hchanged : w.Backs ((w.modifyStore store fun s => { s with value := v }).record
        (.changed store v)) := World.backs_of_cons rfl rfl
    have hround := hcalls.backs hcall hstored (fun _ hl => hl) List.suffix_rfl
    exact (hchanged.trans hround).trans (World.backs_of_cons rfl rfl)

theorem pairs_backing_invoke (depth : Nat) (c : Callback σ) :
    (backing σ).Pairs (invoke depth c) (invoke depth c) :=
  Pairing.pairs_invoke (fun _ _ => rfl)
    (fun _ hcall store change _ _ _ _ h => ⟨backs_write hcall store change h, False.elim⟩) depth c

/-- Behind each record of a call that a run makes there is a run of the callback. -/
theorem backs_execute {p : Program σ} (h : execute (invoke depth) p w = some ((), w')) :
    w.Backs w' :=
  (pairs_backing_invoke (depth + 1) (.script p) w trivial () w' h).1

end Run

end LiveMarkup
