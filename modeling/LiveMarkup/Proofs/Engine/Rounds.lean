import LiveMarkup.Proofs.Engine.Pairing
import Mathlib.Algebra.Group.Nat.Defs
import Mathlib.Data.List.Nodup

/-!
# Rounds of calls

When a state changes, those listeners are called one after the other that the store has at that
moment. What they subscribe and unsubscribe has no effect on the round that goes on. So a listener
that was unsubscribed may still be called, but only by rounds that had begun by then
(`Regular.exists_changed`), and by none of them twice (`Told.once`).

That holds as long as names of subscriptions do not repeat, which they do after `2⁶⁴` subscriptions
on one store.
-/

namespace LiveMarkup

variable {σ α : Type}

/-! ## What a history says -/

namespace Moment

/-- The call of a listener, and the round in which it is called. -/
def call? : Moment → Option (StoreId × SubscriptionId × Nat)
  | .called store id round => some (store, id, round)
  | _ => none

/-- The store whose list of listeners changes. -/
def enrolment? : Moment → Option StoreId
  | .subscribed store _ | .unsubscribed store _ => some store
  | _ => none

def isSubscription (store : StoreId) : Moment → Bool
  | .subscribed s _ => s == store
  | _ => false

theorem IsIdle.call?_eq {m : Moment} (h : m.IsIdle) : m.call? = none := by
  cases m with
  | changed | told | called | subscribed | unsubscribed => exact h.elim
  | _ => rfl

theorem IsIdle.enrolment?_eq {m : Moment} (h : m.IsIdle) : m.enrolment? = none := by
  cases m with
  | changed | told | called | subscribed | unsubscribed => exact h.elim
  | _ => rfl

end Moment

/-- The calls of listeners, latest first. -/
def calls (history : List Moment) : List (StoreId × SubscriptionId × Nat) :=
  history.filterMap Moment.call?

/-- How many subscriptions on a store there have been. -/
def subscriptions (store : StoreId) (history : List Moment) : Nat :=
  history.countP (Moment.isSubscription store)

/-- On every store there have been fewer subscriptions than there are names for them. -/
def FewSubscriptions (history : List Moment) : Prop :=
  ∀ store, subscriptions store history < 2 ^ 64

variable {store : StoreId} {id : SubscriptionId} {round : Nat} {m : Moment}
  {value : OrderedValue} {history before : List Moment} {stores : List (Store σ)} {st : Store σ}

/-- If there have been few subscriptions now, there were few before. -/
theorem FewSubscriptions.of_append {since : List Moment}
    (h : FewSubscriptions (since ++ history)) : FewSubscriptions history := by
  intro store
  have hs := h store
  rw [subscriptions, List.countP_append] at hs
  exact Nat.lt_of_le_of_lt (Nat.le_add_left _ _) hs

/-- Moments that do not change the listeners of a store are no subscriptions on it. -/
theorem subscriptions_cons (hm : m.enrolment? ≠ some store) :
    subscriptions store (m :: history) = subscriptions store history := by
  refine List.countP_cons_of_neg ?_
  cases m with
  | subscribed s id => exact fun h => hm (congrArg some (beq_iff_eq.1 h))
  | _ => nofun

theorem le_subscriptions_cons : subscriptions store history ≤ subscriptions store (m :: history) :=
  (List.sublist_cons_self m history).countP_le

/-- Listeners are called as they are subscribed when a state changes. -/
structure Told (history : List Moment) : Prop where
  gone : ∀ store id, .unsubscribed store id ∈ history → id.toNat < subscriptions store history
  called : ∀ store id round past, .called store id round :: past <:+ history →
    ∃ value before, .changed store value :: before <:+ past ∧ before.length + 1 = round ∧
      .unsubscribed store id ∉ before
  once : (calls history).Nodup

/-- In the beginning nobody was called. -/
theorem told_nil : Told [] where
  gone := nofun
  called _ _ _ _ h := nomatch List.suffix_nil.1 h
  once := List.nodup_nil

/-- Whatever is no call may happen, as long as only subscriptions end that have begun. -/
theorem Told.cons (h : Told history) (hcall : m.call? = none)
    (hgone : ∀ store id, m = .unsubscribed store id → id.toNat < subscriptions store history) :
    Told (m :: history) where
  gone store id hmem := by
    refine Nat.lt_of_lt_of_le ?_ le_subscriptions_cons
    rcases List.mem_cons.1 hmem with he | hmem
    · exact hgone store id he.symm
    · exact h.gone store id hmem
  called store id round past hs := by
    rcases List.suffix_cons_iff.1 hs with he | hs
    · obtain ⟨rfl, -⟩ := List.cons.inj he
      cases hcall
    · exact h.called store id round past hs
  once := by
    rw [calls, List.filterMap_cons_none hcall]
    exact h.once

/-- A listener may be called in a round that has begun, if its subscription had not ended before
that and it was not called in that round yet. -/
theorem Told.cons_called (h : Told history) (hs : .changed store value :: before <:+ history)
    (hgone : .unsubscribed store id ∉ before)
    (hnew : (store, id, before.length + 1) ∉ calls history) :
    Told (.called store id (before.length + 1) :: history) where
  gone store id hmem := by
    rcases List.mem_cons.1 hmem with he | hmem
    · cases he
    · exact h.gone store id hmem
  called store' id' round past hs' := by
    rcases List.suffix_cons_iff.1 hs' with he | hs'
    · cases he
      exact ⟨value, before, hs, rfl, hgone⟩
    · exact h.called store' id' round past hs'
  once := List.nodup_cons.2 ⟨hnew, h.once⟩

/-- A round is known by a length that the history has passed. -/
theorem Told.round_lt (h : Told history) {c : StoreId × SubscriptionId × Nat}
    (hc : c ∈ calls history) : c.2.2 < history.length := by
  obtain ⟨m, hm, hcall⟩ := List.mem_filterMap.1 hc
  cases m with
  | called store id round =>
    cases hcall
    obtain ⟨later, past, rfl⟩ := List.append_of_mem hm
    obtain ⟨value, before, hs, rfl, -⟩ := h.called store id round past (List.suffix_append _ _)
    have hle := hs.length_le
    rw [List.length_cons] at hle
    rw [List.length_append, List.length_cons]
    change before.length + 1 < _
    omega
  | _ => cases hcall

/-! ## What stores say -/

/-- A store has the listeners that the history says, and the next subscription gets a new name. -/
structure Store.Enrolls (st : Store σ) (store : StoreId) (history : List Moment) : Prop where
  nextId : st.nextId = UInt64.ofNat (subscriptions store history)
  nodup : (st.listeners.map Listener.id).Nodup
  known : ∀ l ∈ st.listeners, l.id.toNat < subscriptions store history
  here : ∀ l ∈ st.listeners, .unsubscribed store l.id ∉ history

/-- What does not change the listeners of a store leaves what the history says of them. -/
theorem Store.Enrolls.cons (h : st.Enrolls store history) (hm : m.enrolment? ≠ some store) :
    st.Enrolls store (m :: history) where
  nextId := by rw [subscriptions_cons hm, h.nextId]
  nodup := h.nodup
  known l hl := by
    rw [subscriptions_cons hm]
    exact h.known l hl
  here l hl hmem := by
    rcases List.mem_cons.1 hmem with he | hmem
    · exact hm (he ▸ rfl)
    · exact h.here l hl hmem

/-- A subscription counts as one more. -/
theorem subscriptions_subscribed :
    subscriptions store (.subscribed store id :: history) = subscriptions store history + 1 :=
  List.countP_cons_of_pos (beq_self_eq_true store)

/-- A listener that is added has a name that no other one had: names are taken in order, and fewer
than `2⁶⁴` of them have been taken. -/
theorem Store.Enrolls.enlist (h : st.Enrolls store history) (ht : Told history)
    (hfew : FewSubscriptions (.subscribed store st.nextId :: history)) (callback : Callback σ) :
    (st.enlist callback).Enrolls store (.subscribed store st.nextId :: history) := by
  have hlt := hfew store
  rw [subscriptions_subscribed] at hlt
  have hnext : st.nextId.toNat = subscriptions store history := by
    rw [h.nextId, UInt64.toNat_ofNat']
    exact Nat.mod_eq_of_lt (Nat.lt_of_succ_lt hlt)
  refine ⟨?_, ?_, fun l hl => ?_, fun l hl hmem => ?_⟩
  · rw [subscriptions_subscribed, UInt64.ofNat_add, ← h.nextId]
    rfl
  · rw [Store.enlist, List.map_append, List.map_singleton, ← List.concat_eq_append,
      List.nodup_concat]
    refine ⟨fun hmem => ?_, h.nodup⟩
    obtain ⟨l, hl, hid : l.id = st.nextId⟩ := List.mem_map.1 hmem
    exact absurd (hid ▸ h.known l hl) (hnext ▸ Nat.lt_irrefl _)
  · rw [subscriptions_subscribed]
    rcases List.mem_append.1 hl with hl | hl
    · exact Nat.lt_succ_of_lt (h.known l hl)
    · obtain rfl := List.mem_singleton.1 hl
      exact hnext ▸ Nat.lt_succ_self _
  · rcases List.mem_cons.1 hmem with he | hmem
    · cases he
    rcases List.mem_append.1 hl with hl | hl
    · exact h.here l hl hmem
    · obtain rfl := List.mem_singleton.1 hl
      exact absurd (ht.gone store _ hmem) (hnext ▸ Nat.lt_irrefl _)

/-- A listener that is taken away is none of those that stay, as their names differ. -/
theorem Store.Enrolls.dismiss (h : st.Enrolls store history) (id : SubscriptionId) :
    (st.dismiss id).Enrolls store (.unsubscribed store id :: history) where
  nextId := h.nextId
  nodup := (List.filter_sublist.map _).nodup h.nodup
  known l hl := h.known l (List.mem_of_mem_filter hl)
  here l hl hmem := by
    rcases List.mem_cons.1 hmem with he | hmem
    · have hne := List.of_mem_filter hl
      cases he
      simp at hne
    · exact h.here l (List.mem_of_mem_filter hl) hmem

/-- All stores have the listeners that the history says, and these have been called as they are
subscribed. -/
structure Regular (stores : List (Store σ)) (history : List Moment) : Prop where
  told : Told history
  enrolls : ∀ (store : StoreId) (st : Store σ), stores[store]? = some st → st.Enrolls store history
  unknown : ∀ store : StoreId, stores[store]? = none → subscriptions store history = 0

namespace Regular

/-- What neither changes listeners nor breaks the order of calls keeps the stores regular. -/
theorem cons (h : Regular stores history) (hm : m.enrolment? = none) (ht : Told (m :: history)) :
    Regular stores (m :: history) where
  told := ht
  enrolls store st hst := (h.enrolls store st hst).cons (hm ▸ nofun)
  unknown store hst := by rw [subscriptions_cons (hm ▸ nofun), h.unknown store hst]

/-- Idle moments keep the stores regular. -/
theorem append (h : Regular stores history) {since : List Moment}
    (hs : ∀ m ∈ since, m.IsIdle) : Regular stores (since ++ history) := by
  induction since with
  | nil => exact h
  | cons m since ih =>
    rw [List.forall_mem_cons] at hs
    have hrest := ih hs.2
    refine hrest.cons hs.1.enrolment?_eq (hrest.told.cons hs.1.call?_eq ?_)
    rintro store id rfl
    exact hs.1.elim

/-- If the listeners of one store change, and the history says how, the stores stay regular. -/
theorem modify (h : Regular stores history) {f : Store σ → Store σ} (store : StoreId)
    (hm : m.enrolment? = some store) (ht : Told (m :: history))
    (hf : ∀ st, stores[store]? = some st → (f st).Enrolls store (m :: history))
    (hsome : (stores[store]?).isSome) : Regular (stores.modify store f) (m :: history) := by
  refine ⟨ht, fun other st hst => ?_, fun other hnone => ?_⟩
  · rw [List.getElem?_modify] at hst
    by_cases he : store = other
    · subst he
      rw [Option.map_eq_map, Option.map_eq_some_iff] at hst
      obtain ⟨st, hst, rfl⟩ := hst
      rw [if_pos rfl]
      exact hf st hst
    · simp only [he, if_false, id_map'] at hst
      refine (h.enrolls other st hst).cons fun heq => he ?_
      exact Option.some.inj (hm.symm.trans heq)
  · rw [List.getElem?_modify, Option.map_eq_map, Option.map_eq_none_iff] at hnone
    rw [subscriptions_cons, h.unknown other hnone]
    rintro heq
    obtain rfl := Option.some.inj (hm.symm.trans heq)
    rw [hnone] at hsome
    cases hsome

/-- A change to a store that leaves its listeners keeps the stores regular. -/
theorem modify_of_same (h : Regular stores history) (store : StoreId) {f : Store σ → Store σ}
    (hl : ∀ st, (f st).listeners = st.listeners) (hn : ∀ st, (f st).nextId = st.nextId) :
    Regular (stores.modify store f) history := by
  refine ⟨h.told, fun other st hst => ?_, fun other hnone => ?_⟩
  · rw [List.getElem?_modify, Option.map_eq_map, Option.map_eq_some_iff] at hst
    obtain ⟨st, hst, rfl⟩ := hst
    obtain ⟨hnext, hnodup, hknown, hhere⟩ := h.enrolls other st hst
    split
    · exact ⟨(hn st).trans hnext, (hl st).symm ▸ hnodup, (hl st).symm ▸ hknown,
        (hl st).symm ▸ hhere⟩
    · exact ⟨hnext, hnodup, hknown, hhere⟩
  · rw [List.getElem?_modify, Option.map_eq_map, Option.map_eq_none_iff] at hnone
    exact h.unknown other hnone

/-- A new store has no listeners and no subscriptions. -/
theorem addStore (h : Regular stores history) {st : Store σ} (hid : st.nextId = 0)
    (hl : st.listeners = []) : Regular (stores ++ [st]) history := by
  refine ⟨h.told, fun store st' hst => ?_, fun store hnone => ?_⟩
  · rcases Nat.lt_or_ge store stores.length with hlt | hge
    · rw [List.getElem?_append_left hlt] at hst
      exact h.enrolls store st' hst
    · have hnone : stores[store]? = none := List.getElem?_eq_none hge
      rw [List.getElem?_append_right hge, List.getElem?_singleton] at hst
      split at hst
      · obtain rfl := Option.some.inj hst
        refine ⟨by rw [h.unknown store hnone, hid]; rfl, by rw [hl]; exact List.nodup_nil, ?_, ?_⟩
        · rw [hl]
          nofun
        · rw [hl]
          nofun
      · cases hst
  · refine h.unknown store (List.getElem?_eq_none ?_)
    have hle := List.getElem?_eq_none_iff.1 hnone
    rw [List.length_append] at hle
    exact Nat.le_of_add_right_le hle

/-- A listener that was unsubscribed is called only by rounds that had begun. -/
theorem exists_changed (h : Regular stores history) {later between : List Moment}
    (he : history = later ++ .called store id round :: (between ++
      .unsubscribed store id :: before)) :
    ∃ value earlier, .changed store value :: earlier <:+ before ∧ earlier.length + 1 = round := by
  have hs : .called store id round :: (between ++ .unsubscribed store id :: before) <:+ history :=
    he ▸ List.suffix_append _ _
  obtain ⟨value, earlier, hbegan, hround, hgone⟩ := h.told.called store id round _ hs
  refine ⟨value, earlier, ?_, hround⟩
  rcases List.suffix_or_suffix_of_suffix hbegan (List.suffix_append _ _) with hle | hle
  · rcases List.suffix_cons_iff.1 hle with heq | hle
    · cases heq
    · exact hle
  · rcases List.suffix_cons_iff.1 hle with heq | hle
    · cases heq
    · exact absurd (hle.subset List.mem_cons_self) hgone

end Regular

/-! ## What runs make of it -/

namespace World

variable {w w' w'' : World σ}

/-- The history goes on, with calls because of changes after it had a length. -/
def Extends (w w' : World σ) (n : Nat) : Prop :=
  ∃ since, w'.history = since ++ w.history ∧ ∀ c ∈ calls since, n < c.2.2

/-- The history goes on with rounds of its own, and what was regular stays so. -/
structure GoesOn (w w' : World σ) : Prop where
  extends_length : w.Extends w' w.history.length
  regular : FewSubscriptions w'.history → Regular w.stores w.history →
    Regular w'.stores w'.history

/-- One moment more is a call in a later round, or none. -/
theorem extends_of_cons {n : Nat} (hh : w'.history = m :: w.history)
    (hm : ∀ c, m.call? = some c → n < c.2.2) : w.Extends w' n := by
  refine ⟨[m], hh, fun c hc => ?_⟩
  obtain ⟨_, hmem, hcall⟩ := List.mem_filterMap.1 hc
  exact hm c (List.mem_singleton.1 hmem ▸ hcall)

theorem Extends.suffix {n : Nat} (h : w.Extends w' n) : w.history <:+ w'.history := by
  obtain ⟨since, hs, -⟩ := h
  exact hs ▸ List.suffix_append _ _

theorem Extends.few {n : Nat} (h : w.Extends w' n) (hfew : FewSubscriptions w'.history) :
    FewSubscriptions w.history := by
  obtain ⟨since, hs, -⟩ := h
  rw [hs] at hfew
  exact hfew.of_append

theorem Extends.mono {n n' : Nat} (h : w.Extends w' n') (hn : n ≤ n') : w.Extends w' n := by
  obtain ⟨since, hs, hc⟩ := h
  exact ⟨since, hs, fun c hmem => Nat.lt_of_le_of_lt hn (hc c hmem)⟩

theorem Extends.trans {n : Nat} (h : w.Extends w' n) (h' : w'.Extends w'' n) :
    w.Extends w'' n := by
  obtain ⟨since, hs, hc⟩ := h
  obtain ⟨since', hs', hc'⟩ := h'
  refine ⟨since' ++ since, by rw [hs', hs, List.append_assoc], ?_⟩
  rw [calls, List.filterMap_append]
  exact List.forall_mem_append.2 ⟨hc', hc⟩

/-- A call in a round that had begun is not made again by what came later. -/
theorem Extends.notMem_calls {n : Nat} (h : w.Extends w' n)
    {c : StoreId × SubscriptionId × Nat} (hc : c ∉ calls w.history) (hn : c.2.2 ≤ n) :
    c ∉ calls w'.history := by
  obtain ⟨since, hs, hlt⟩ := h
  rw [hs, calls, List.filterMap_append, List.mem_append, not_or]
  exact ⟨fun hmem => absurd (hlt c hmem) (Nat.not_lt.2 hn), hc⟩

/-- The rounds of a later stretch began even later, as the history is longer then. -/
theorem GoesOn.trans (h : w.GoesOn w') (h' : w'.GoesOn w'') : w.GoesOn w'' where
  extends_length :=
    h.extends_length.trans (h'.extends_length.mono h.extends_length.suffix.length_le)
  regular hfew hr := h'.regular hfew (h.regular (h'.extends_length.few hfew) hr)

theorem GoesOn.of_cons (hh : w'.history = m :: w.history) (hm : m.call? = none)
    (hr : FewSubscriptions w'.history → Regular w.stores w.history →
      Regular w'.stores w'.history) : w.GoesOn w' :=
  ⟨extends_of_cons hh (by rw [hm]; nofun), hr⟩

/-- Idle moments begin no round. -/
theorem GoesOn.of_idles (h : w.Idles w') : w.GoesOn w' := by
  obtain ⟨hstores, since, hs, hidle⟩ := h
  refine ⟨⟨since, hs, fun c hc => ?_⟩, fun _ hr => ?_⟩
  · obtain ⟨m, hm, hcall⟩ := List.mem_filterMap.1 hc
    rw [(hidle m hm).call?_eq] at hcall
    cases hcall
  · rw [hstores, hs]
    exact hr.append hidle

theorem goesOn_told (w : World σ) (store : StoreId) : w.GoesOn (w.record (.told store)) :=
  .of_cons rfl rfl fun _ hr => hr.cons rfl (hr.told.cons rfl nofun)

/-- A subscription keeps the world regular. -/
theorem goesOn_enlist (callback : Callback σ) (hst : w.stores[store]? = some st) :
    w.GoesOn ((w.modifyStore store fun s => s.enlist callback).record
      (.subscribed store st.nextId)) := by
  refine .of_cons rfl rfl fun hfew hr => ?_
  refine hr.modify store rfl (hr.told.cons rfl nofun) (fun st' hst' => ?_) (by rw [hst]; rfl)
  obtain rfl := Option.some.inj (hst.symm.trans hst')
  exact (hr.enrolls store st hst).enlist hr.told hfew callback

/-- The end of a subscription keeps the world regular, as only a subscription that has begun is
found. -/
theorem goesOn_dismiss (h : (w.stores[store]?).any (fun s => s.hasListener id) = true) :
    w.GoesOn ((w.modifyStore store fun s => s.dismiss id).record (.unsubscribed store id)) := by
  obtain ⟨st, hst, hlistener⟩ := (Option.any_eq_true _ _).1 h
  obtain ⟨l, hl, hid⟩ := List.any_eq_true.1 hlistener
  refine .of_cons rfl rfl fun _ hr => ?_
  have henrolls := hr.enrolls store st hst
  refine hr.modify store rfl (hr.told.cons rfl ?_) (fun st' hst' => ?_) (by rw [hst]; rfl)
  · rintro _ _ ⟨⟩
    exact beq_iff_eq.1 hid ▸ henrolls.known l hl
  · obtain rfl := Option.some.inj (hst.symm.trans hst')
    exact henrolls.dismiss id

theorem goesOn_addStore (w : World σ) (state : State) (sink : Diagnostic → σ → σ) :
    w.GoesOn (w.addStore state sink).1 :=
  ⟨⟨[], rfl, nofun⟩, fun _ hr => hr.addStore rfl rfl⟩

end World

/-- Every run makes the history go on with rounds of its own. -/
def rounds : Pairing σ where
  layers _ middleware := middleware
  Leads := World.GoesOn
  Admits _ := True
  Trusts _ := False
  trans := .trans
  idles := .of_idles
  admits _ _ := trivial
  trusts _ h := h
  enlists := World.goesOn_enlist
  dismisses := World.goesOn_dismiss
  addsStore := World.goesOn_addStore
  layers_new _ := rfl

namespace Run

variable {call call' : Callback σ → Run σ Unit} {w : World σ}

/-- A round calls its listeners once each. -/
theorem ensures_callAll (hcall : ∀ c, rounds.Pairs (call c) (call' c)) {ls : List (Listener σ)}
    (hs : .changed store value :: before <:+ w.history) :
    Ensures (· = w) (callAll call store (before.length + 1) ls) fun _ w' =>
      w.Extends w' before.length ∧
        (FewSubscriptions w'.history → Regular w.stores w.history →
          (ls.map Listener.id).Nodup → (∀ l ∈ ls, .unsubscribed store l.id ∉ before) →
          (∀ l ∈ ls, (store, l.id, before.length + 1) ∉ calls w.history) →
          Regular w'.stores w'.history) := by
  have hlong : before.length + 1 ≤ w.history.length := hs.length_le
  induction ls generalizing w with
  | nil =>
    refine .of_pure ?_
    rintro w rfl
    exact ⟨⟨[], rfl, nofun⟩, fun _ hr _ _ _ => hr⟩
  | cons l rest ih =>
    refine .bind (Q := fun _ w₁ => w₁ = w.record (.called store l.id (before.length + 1)))
      (.of_modify fun _ h => h ▸ rfl) fun _ => .of_forall ?_
    rintro w₁ rfl
    refine .bind (Q := fun _ w₂ => (w.record (.called store l.id (before.length + 1))).GoesOn w₂)
      ?_ fun _ => .of_forall fun w₂ h₂ => ?_
    · rintro w₁ _ w₂ rfl ha
      exact (hcall l.callback _ trivial _ _ ha).1
    have h₁ : w.Extends (w.record (.called store l.id (before.length + 1))) before.length :=
      World.extends_of_cons rfl (by rintro _ ⟨⟩; exact Nat.lt_succ_self _)
    have hsuffix := h₁.suffix.trans h₂.extends_length.suffix
    refine (ih (hs.trans hsuffix) (Nat.le_trans hlong hsuffix.length_le)).mono (fun _ h => h) ?_
    rintro _ w' ⟨h', hregular⟩
    refine ⟨(h₁.trans (h₂.extends_length.mono ?_)).trans h', fun hfew hr hnodup hgone hnew => ?_⟩
    · exact Nat.le_trans (Nat.le_of_succ_le hlong) h₁.suffix.length_le
    rw [List.map_cons, List.nodup_cons] at hnodup
    rw [List.forall_mem_cons] at hgone hnew
    have hfew₂ := h'.few hfew
    have hr₁ : Regular w.stores (.called store l.id (before.length + 1) :: w.history) :=
      hr.cons rfl (hr.told.cons_called hs hgone.1 hnew.1)
    refine hregular hfew (h₂.regular hfew₂ hr₁) hnodup.2 hgone.2 fun l' hl' => ?_
    refine h₂.extends_length.notMem_calls (fun hmem => ?_) (Nat.le_succ_of_le hlong)
    rcases List.mem_cons.1 hmem with he | hmem
    · have hid : l'.id = l.id := congrArg (fun c => c.2.1) he
      exact hnodup.1 (hid ▸ List.mem_map_of_mem hl')
    · exact hnew.2 l' hl' hmem

/-- A round of calls goes through the listeners that the store has when it begins. None of them was
called in that round, because the round is the length of the history. -/
theorem ensures_notify (hcall : ∀ c, rounds.Pairs (call c) (call' c))
    (hw : w.history = .changed store value :: before) :
    Ensures (· = w) (notify call store) fun _ w' => w.Extends w' before.length ∧
      (FewSubscriptions w'.history → Regular w.stores w.history →
        Regular w'.stores w'.history) := by
  have hlength : w.history.length = before.length + 1 := by rw [hw, List.length_cons]
  unfold notify
  refine .of_get ?_
  rintro w rfl
  rw [hlength]
  have hsuffix : .changed store value :: before <:+ w.history := hw ▸ List.suffix_rfl
  refine (ensures_callAll hcall hsuffix).bind fun _ => .of_modify ?_
  rintro w₂ ⟨hext, hregular⟩
  have htold := w₂.goesOn_told store
  refine ⟨hext.trans (htold.extends_length.mono ?_), fun hfew hr => ?_⟩
  · exact Nat.le_trans (Nat.le_of_lt (by omega)) hext.suffix.length_le
  have hfew₂ := htold.extends_length.few hfew
  refine htold.regular hfew ?_
  cases hst : w.stores[store]? with
  | none =>
    rw [hst] at hregular
    exact hregular hfew₂ hr List.nodup_nil nofun nofun
  | some st =>
    rw [hst] at hregular
    have henrolls := hr.enrolls store st hst
    refine hregular hfew₂ hr henrolls.nodup (fun l hl hmem => ?_) fun l _ hmem => ?_
    · exact henrolls.here l hl (hw ▸ List.mem_cons_of_mem _ hmem)
    · exact absurd (hr.told.round_lt hmem) (hlength ▸ Nat.lt_irrefl _)

/-- A write is a change and the round of calls that it begins, or nothing. -/
theorem goesOn_write (hcall : ∀ c, rounds.Pairs (call c) (call' c)) (store : StoreId)
    (change : OrderedValue → Option OrderedValue) :
    Ensures (· = w) (write call store change) fun _ w' => w.GoesOn w' := by
  unfold write
  refine .of_get ?_
  rintro w rfl
  split
  · exact .of_pure fun _ h => h ▸ rounds.leads_refl w
  next v _ =>
  refine .bind (Q := fun _ w₁ => w₁ =
    (w.modifyStore store fun s => { s with value := v }).record (.changed store v))
    (.of_set fun _ _ => rfl) fun _ => .of_forall ?_
  rintro w₁ rfl
  refine (ensures_notify hcall rfl).bind fun _ => .of_pure fun w' h => ?_
  obtain ⟨hext, hregular⟩ := h
  have hchanged : Moment.call? (.changed store v) = none := rfl
  refine ⟨(World.extends_of_cons rfl (by rw [hchanged]; nofun)).trans hext,
    fun hfew hr => hregular hfew ?_⟩
  have hstores := hr.modify_of_same store (f := fun s => { s with value := v }) (fun _ => rfl)
    fun _ => rfl
  exact hstores.cons rfl (hr.told.cons hchanged nofun)

theorem pairs_write (hcall : ∀ c, rounds.Pairs (call c) (call' c)) (store : StoreId)
    (change : OrderedValue → Option OrderedValue) :
    rounds.Pairs (write call store change) (write call' store change) :=
  fun w _ b w' h => ⟨goesOn_write hcall store change w b w' rfl h, False.elim⟩

theorem pairs_merge (hcall : ∀ c, rounds.Pairs (call c) (call' c)) (h : Handle)
    (entries : State) : rounds.Pairs (merge call h entries) (merge call' h entries) :=
  Pairing.pairs_merge (fun _ _ => rfl) hcall (pairs_write hcall) h entries

/-- Whatever is called, the history goes on with rounds of its own, and what was regular stays so.
By induction on how deep calls are nested. -/
theorem pairs_invoke [Html.Tokenizer] (depth : Nat) (c : Callback σ) :
    rounds.Pairs (invoke depth c) (invoke depth c) :=
  Pairing.pairs_invoke (fun _ _ => rfl) (fun _ => pairs_write) depth c

end Run

end LiveMarkup
