import LiveMarkup.Proofs.Engine.Rounds
import LiveMarkup.Proofs.Engine.Unfolding
import Mathlib.Algebra.BigOperators.Group.Finset.Piecewise
import Mathlib.Data.Finset.Card
import Mathlib.Data.Finset.Range

/-!
# Accounts of calls

What a history says about the calls of listeners, if every change of a store is followed by a round
of calls (`Accounted`). Writes nest: a listener may write back, and then the round of its write goes
on inside the round in which it was called. A history can be told together from the histories of the
steps of a run (`Accounted.append`), and of the round of a write (`Accounted.write`).

Subscriptions are named by numbers that start over after `2⁶⁴` of them, so that a name may come to
mean two listeners. But a round calls the listeners in the order in which they subscribed, so the
one that subscribed as the first of all is the first to be called, and so on. As long as nobody
unsubscribes, the listener in a place is called once for every change after it has subscribed
(`Accounted.tallied`). Likewise, if listeners are counted by their names, those that are there at
every change are called once for each (`Accounted.callsOf_eq`).
-/

namespace LiveMarkup

/-! ## What a history says -/

namespace Moment

/-- Whether a store has changed. -/
def isChange (store : StoreId) : Moment → Bool
  | .changed s _ => s == store
  | _ => false

def isUnsubscription : Moment → Bool
  | .unsubscribed .. => true
  | _ => false

/-- No write begins or returns at the moment. -/
def IsInside : Moment → Prop
  | .changed .. | .told _ => False
  | _ => True

/-- What becomes of the listeners of a store. -/
def enrol (store : StoreId) : Moment → List SubscriptionId → List SubscriptionId
  | .subscribed s id, ids => if s = store then ids ++ [id] else ids
  | .unsubscribed s id, ids => if s = store then ids.filter (· != id) else ids
  | _, ids => ids

theorem isChange_iff {store : StoreId} {m : Moment} :
    m.isChange store = true ↔ ∃ v, m = .changed store v := by
  constructor
  · intro h
    cases m with
    | changed s v => exact ⟨v, by rw [beq_iff_eq.1 h]⟩
    | _ => cases h
  · rintro ⟨v, rfl⟩
    exact beq_self_eq_true store

theorem isUnsubscription_eq {m : Moment} (h : ∀ store id, m ≠ .unsubscribed store id) :
    m.isUnsubscription = false := by
  cases m with
  | unsubscribed store id => exact absurd rfl (h store id)
  | _ => rfl

theorem IsIdle.isInside {m : Moment} (h : m.IsIdle) : m.IsInside := by
  cases m with
  | changed | told => exact h.elim
  | _ => trivial

end Moment

/-- How often a store has changed. -/
def changes (store : StoreId) (history : List Moment) : Nat :=
  history.countP (Moment.isChange store)

/-- The listeners of a store, if they were the given ones at the start of the history. -/
def enrolled (store : StoreId) (start : List SubscriptionId) (history : List Moment) :
    List SubscriptionId :=
  history.foldr (Moment.enrol store) start

/-- The listeners of a store that are called in a round, in the order in which they are called. -/
def roll (store : StoreId) (round : Nat) (history : List Moment) : List SubscriptionId :=
  ((calls history).reverse.filter fun c => c.1 == store && c.2.2 == round).map fun c => c.2.1

/-- How often the listener in a place is called. It is the one that is called when its round has
called as many others as there are before it. -/
def callsAt (store : StoreId) (place : Nat) : List Moment → Nat
  | [] => 0
  | .called s _ round :: past =>
    callsAt store place past +
      if s = store ∧ (roll store round past).length = place then 1 else 0
  | _ :: past => callsAt store place past

/-- The writes that begin in the history return in it, and no others do. -/
inductive Bracketed : List Moment → Prop
  | nil : Bracketed []
  | cons {m : Moment} {history : List Moment} (hm : m.IsInside) (h : Bracketed history) :
      Bracketed (m :: history)
  | write {store : StoreId} {v : OrderedValue} {during history : List Moment}
      (hd : Bracketed during) (h : Bracketed history) :
      Bracketed (.told store :: (during ++ .changed store v :: history))

variable {store : StoreId} {id : SubscriptionId} {round n place : Nat} {m : Moment}
  {v : OrderedValue} {start : StoreId → List SubscriptionId} {ids : List SubscriptionId}
  {opened opened' : List (StoreId × SubscriptionId × Nat)} {since later before : List Moment}

theorem enrolled_append :
    enrolled store ids (later ++ since) = enrolled store (enrolled store ids since) later :=
  List.foldr_append

theorem enrolled_cons (hm : m.enrolment? ≠ some store) :
    enrolled store ids (m :: since) = enrolled store ids since := by
  cases m with
  | subscribed s id | unsubscribed s id => exact if_neg fun he => hm (congrArg some he)
  | _ => rfl

theorem enrolled_of_forall (h : ∀ m ∈ since, m.enrolment? ≠ some store) :
    enrolled store ids since = ids := by
  induction since with
  | nil => rfl
  | cons m since ih =>
    rw [List.forall_mem_cons] at h
    rw [enrolled_cons h.1, ih h.2]

theorem enrolled_of_idle (h : ∀ m ∈ since, m.IsIdle) : enrolled store ids since = ids :=
  enrolled_of_forall fun m hm => by
    rw [(h m hm).enrolment?_eq]
    nofun

theorem calls_append : calls (later ++ since) = calls later ++ calls since :=
  List.filterMap_append

theorem roll_append :
    roll store round (later ++ since) = roll store round since ++ roll store round later := by
  rw [roll, calls_append, List.reverse_append, List.filter_append, List.map_append]
  rfl

theorem roll_eq_nil (h : ∀ c ∈ calls since, c.1 = store → c.2.2 ≠ round) :
    roll store round since = [] := by
  rw [roll, List.map_eq_nil_iff, List.filter_eq_nil_iff]
  intro c hc hkept
  rw [Bool.and_eq_true, beq_iff_eq, beq_iff_eq] at hkept
  exact h c (List.mem_reverse.1 hc) hkept.1 hkept.2

theorem exists_called {c : StoreId × SubscriptionId × Nat} (h : c ∈ calls since) :
    ∃ later before, since = later ++ .called c.1 c.2.1 c.2.2 :: before := by
  obtain ⟨m, hm, hcall⟩ := List.mem_filterMap.1 h
  cases m with
  | called store id round =>
    cases hcall
    exact List.append_of_mem hm
  | _ => cases hcall

theorem Bracketed.append (h : Bracketed later) (h' : Bracketed since) :
    Bracketed (later ++ since) := by
  induction h with
  | nil => exact h'
  | cons hm _ ih => exact .cons hm ih
  | @write _ _ during _ hd _ _ ih =>
    rw [List.cons_append, List.append_assoc]
    exact .write hd ih

/-- A moment of a write at which it does not return is one at which it goes on or begins. -/
theorem written_cases (hm : .told store ≠ m)
    (h : .told store :: (since ++ [.changed store v]) = later ++ m :: before) :
    (∃ after between, later = .told store :: after ∧ since = after ++ m :: between ∧
        before = between ++ [.changed store v]) ∨
      later = .told store :: since ∧ m = .changed store v ∧ before = [] := by
  obtain ⟨after, rfl, hrest⟩ := cons_eq_append_cons h hm
  rcases append_eq_append_cons hrest with ⟨between, hsince, rfl⟩ | ⟨between, rfl, hlast⟩
  · exact .inl ⟨after, between, rfl, hsince, rfl⟩
  · cases between with
    | nil =>
      cases hlast
      exact .inr ⟨by rw [List.append_nil], rfl, rfl⟩
    | cons m' between => simp at hlast

/-! ## Accounts -/

/-- The history, after `n` moments in which the listeners of the stores became those of `start`,
tells of every change to all that listen, each once and in order, before the write returns. Rounds
that began earlier go on with the calls of `opened`. -/
structure Accounted (start : StoreId → List SubscriptionId) (n : Nat)
    (opened : List (StoreId × SubscriptionId × Nat)) (since : List Moment) : Prop where
  bracketed : Bracketed since
  told : ∀ later store v before, since = later ++ .changed store v :: before →
    ∃ during after, later = after ++ .told store :: during ∧ Bracketed during ∧
      roll store (n + before.length + 1) during = enrolled store (start store) before ∧
      roll store (n + before.length + 1) since = enrolled store (start store) before
  began : ∀ later store id round before, since = later ++ .called store id round :: before →
    n < round → ∃ v earlier, .changed store v :: earlier <:+ before ∧ n + earlier.length + 1 = round
  ongoing : ((calls since).reverse.filter fun c => c.2.2 ≤ n) = opened

namespace Accounted

theorem nil : Accounted start n [] [] where
  bracketed := .nil
  told later _ _ _ h := by simp at h
  began later _ _ _ _ h := by simp at h
  ongoing := rfl

/-- At a moment at which no write begins or returns, nothing is called but in earlier rounds. -/
theorem singleton (hm : m.IsInside) (hround : ∀ c, m.call? = some c → c.2.2 ≤ n) :
    Accounted start n m.call?.toList [m] where
  bracketed := .cons hm .nil
  told later store v before h := by
    have hmem : Moment.changed store v ∈ [m] := h ▸ List.mem_append_right _ List.mem_cons_self
    obtain rfl := List.mem_singleton.1 hmem
    exact hm.elim
  began later store id round before h hlt := by
    have hmem : Moment.called store id round ∈ [m] :=
      h ▸ List.mem_append_right _ List.mem_cons_self
    obtain rfl := List.mem_singleton.1 hmem
    exact absurd (hround _ rfl) (Nat.not_le.2 hlt)
  ongoing := by
    cases hcall : m.call? with
    | none => rw [calls, List.filterMap_cons_none hcall]; rfl
    | some c =>
      rw [calls, List.filterMap_cons_some hcall]
      exact List.filter_eq_self.2 fun c' hc' =>
        decide_eq_true (List.mem_singleton.1 hc' ▸ hround c hcall)

theorem mem_opened (h : Accounted start n opened since) {c : StoreId × SubscriptionId × Nat}
    (hc : c ∈ calls since) (hle : c.2.2 ≤ n) : c ∈ opened :=
  h.ongoing ▸ List.mem_filter.2 ⟨List.mem_reverse.2 hc, decide_eq_true hle⟩

theorem roll_eq (h : Accounted start n opened since) (hle : round ≤ n) :
    roll store round since =
      (opened.filter fun c => c.1 == store && c.2.2 == round).map fun c => c.2.1 := by
  rw [roll, ← h.ongoing, List.filter_filter]
  congr 2
  funext c
  by_cases he : c.2.2 = round
  · simp [he, hle]
  · simp [he]

theorem exists_changed (h : Accounted start n opened since) {c : StoreId × SubscriptionId × Nat}
    (hc : c ∈ calls since) (hlt : n < c.2.2) :
    ∃ v earlier, .changed c.1 v :: earlier <:+ since ∧ n + earlier.length + 1 = c.2.2 := by
  obtain ⟨later, before, rfl⟩ := exists_called hc
  obtain ⟨v, earlier, hbegan, hround⟩ := h.began later _ _ _ before rfl hlt
  exact ⟨v, earlier, hbegan.trans ((List.suffix_cons _ _).trans (List.suffix_append _ _)), hround⟩

theorem round_le (h : Accounted start n opened since) {c : StoreId × SubscriptionId × Nat}
    (hc : c ∈ calls since) : c.2.2 ≤ n + since.length := by
  rcases Nat.lt_or_ge n c.2.2 with hlt | hle
  · obtain ⟨v, earlier, hbegan, hround⟩ := h.exists_changed hc hlt
    have hlength := hbegan.length_le
    rw [List.length_cons] at hlength
    omega
  · exact Nat.le_add_right_of_le hle

/-- A step of a run calls nobody in the rounds of the step before. -/
theorem lt_round (h : Accounted start (n + since.length) opened later)
    (hopened : ∀ c ∈ opened, c.2.2 ≤ n) {c : StoreId × SubscriptionId × Nat}
    (hc : c ∈ calls later) (hlt : n < c.2.2) : n + since.length < c.2.2 :=
  Nat.lt_of_not_le fun hle => Nat.not_lt.2 (hopened c (h.mem_opened hc hle)) hlt

/-- What happens in two steps of a run. -/
theorem append (h : Accounted start n opened since)
    (h' : Accounted (fun store => enrolled store (start store) since) (n + since.length) opened'
      later) (hopened : ∀ c ∈ opened', c.2.2 ≤ n) :
    Accounted start n (opened ++ opened') (later ++ since) := by
  refine ⟨h'.bracketed.append h.bracketed, fun after store v before he => ?told,
    fun after store id round before he hlt => ?began, ?ongoing⟩
  case told =>
    rcases append_eq_append_cons he with ⟨between, hlater, rfl⟩ | ⟨between, rfl, hsince⟩
    · obtain ⟨during, after', hafter, hbracketed, hduring, hroll⟩ := h'.told after store v between
        hlater
      have hlength : n + (between ++ since).length + 1 = n + since.length + between.length + 1 := by
        rw [List.length_append]
        omega
      have hnone : roll store (n + since.length + between.length + 1) since = [] :=
        roll_eq_nil fun c hc _ heq => by
          have := h.round_le hc
          omega
      rw [hlength, enrolled_append, roll_append, hnone, List.nil_append]
      exact ⟨during, after', hafter, hbracketed, hduring, hroll⟩
    · obtain ⟨during, after', rfl, hbracketed, hduring, hroll⟩ := h.told between store v before
        hsince
      have hnone : roll store (n + before.length + 1) later = [] :=
        roll_eq_nil fun c hc _ heq => by
          have hlength := congrArg List.length hsince
          rw [List.length_append, List.length_cons] at hlength
          have := h'.lt_round hopened hc (by omega)
          omega
      rw [roll_append, hnone, List.append_nil]
      exact ⟨during, later ++ after', by simp, hbracketed, hduring, hroll⟩
  case began =>
    rcases append_eq_append_cons he with ⟨between, hlater, rfl⟩ | ⟨between, rfl, hsince⟩
    · have hcall : (store, id, round) ∈ calls later :=
        List.mem_filterMap.2 ⟨.called store id round, hlater ▸ by simp, rfl⟩
      obtain ⟨v, earlier, ⟨front, rfl⟩, hround⟩ := h'.began after store id round between hlater
        (h'.lt_round hopened hcall hlt)
      refine ⟨v, earlier ++ since, ⟨front, by simp⟩, ?_⟩
      rw [List.length_append]
      omega
    · exact h.began between store id round before hsince hlt
  case ongoing =>
    have hlater : ((calls later).reverse.filter fun c => c.2.2 ≤ n) = opened' := by
      rw [← List.filter_eq_self.2 fun c hc => decide_eq_true (hopened c hc), ← h'.ongoing,
        List.filter_filter]
      refine List.filter_congr fun c _ => ?_
      by_cases hle : c.2.2 ≤ n
      · simp [hle, Nat.le_add_right_of_le hle]
      · simp [hle]
    rw [calls_append, List.reverse_append, List.filter_append, h.ongoing, hlater]

theorem of_idle (h : ∀ m ∈ since, m.IsIdle) : Accounted start n [] since := by
  induction since with
  | nil => exact .nil
  | cons m since ih =>
    rw [List.forall_mem_cons] at h
    have hcall := h.1.call?_eq
    have hm : Accounted (fun store => enrolled store (start store) since) (n + since.length)
        m.call?.toList [m] := .singleton h.1.isInside (by rw [hcall]; nofun)
    rw [hcall] at hm
    exact (ih h.2).append hm nofun

theorem roll_round
    (h : Accounted start (n + 1) ((start store).map fun id => (store, id, n + 1)) since) :
    roll store (n + 1) since = start store := by
  rw [h.roll_eq le_rfl, List.filter_eq_self.2 (by simp), List.map_map]
  exact List.map_id _

/-- A write, whose round of calls is told of as one that began before. -/
theorem write (h : Accounted start (n + 1) ((start store).map fun id => (store, id, n + 1)) since)
    (v : OrderedValue) : Accounted start n [] (.told store :: (since ++ [.changed store v])) := by
  have hcalls : calls (.told store :: (since ++ [.changed store v])) = calls since := by
    change calls (since ++ [.changed store v]) = _
    rw [calls_append]
    exact List.append_nil _
  have hroll (store' : StoreId) (round : Nat) :
      roll store' round (.told store :: (since ++ [.changed store v])) =
        roll store' round since := by
    rw [roll, hcalls, roll]
  have hround := h.roll_round
  refine ⟨.write h.bracketed .nil, fun later store' v' before he => ?told,
    fun later store' id round before he hlt => ?began, ?ongoing⟩
  case told =>
    rcases written_cases (by simp) he with ⟨after, between, rfl, hsince, rfl⟩ | ⟨rfl, hm, rfl⟩
    · obtain ⟨during, after', rfl, hbracketed, hduring, hrest⟩ := h.told after store' v' between
        hsince
      have hlength : n + (between ++ [Moment.changed store v]).length + 1 =
          n + 1 + between.length + 1 := by
        rw [List.length_append, List.length_singleton]
        omega
      rw [hlength, hroll, enrolled_append]
      exact ⟨during, .told store :: after', rfl, hbracketed, hduring, hrest⟩
    · cases hm
      rw [hroll]
      exact ⟨since, [], rfl, h.bracketed, hround, hround⟩
  case began =>
    rcases written_cases (by simp) he with ⟨after, between, rfl, hsince, rfl⟩ | ⟨-, hm, -⟩
    · rcases Nat.lt_or_ge (n + 1) round with hnew | hle
      · obtain ⟨v', earlier, ⟨front, rfl⟩, hlength⟩ := h.began after store' id round between hsince
          hnew
        refine ⟨v', earlier ++ [.changed store v], ⟨front, by simp⟩, ?_⟩
        rw [List.length_append, List.length_singleton]
        omega
      · have hcall : (store', id, round) ∈ calls since :=
          List.mem_filterMap.2 ⟨.called store' id round, hsince ▸ by simp, rfl⟩
        obtain ⟨_, -, hopened⟩ := List.mem_map.1 (h.mem_opened hcall hle)
        cases hopened
        exact ⟨v, [], List.suffix_append _ _, rfl⟩
    · cases hm
  case ongoing =>
    rw [hcalls, List.filter_eq_nil_iff]
    intro c hc hearly
    have hle := of_decide_eq_true hearly
    obtain ⟨id, -, rfl⟩ := List.mem_map.1
      (h.mem_opened (List.mem_reverse.1 hc) (Nat.le_succ_of_le hle))
    exact Nat.not_succ_le_self n hle

end Accounted

/-! ## Counting calls -/

/-- Nobody unsubscribes. -/
def AllStay (history : List Moment) : Prop := ∀ store id, .unsubscribed store id ∉ history

instance (history : List Moment) : Decidable (AllStay history) :=
  decidable_of_iff (∀ m ∈ history, m.isUnsubscription = false)
    ⟨fun h _ _ hmem => Bool.noConfusion (h _ hmem),
      fun h _ hm => Moment.isUnsubscription_eq fun store id he => h store id (he ▸ hm)⟩

/-- Every listener is called as often as its store changes after it has subscribed. -/
structure Tallied (start : StoreId → List SubscriptionId) (since : List Moment) : Prop where
  old : ∀ store place, place < (start store).length →
    callsAt store place since = changes store since
  new : ∀ later store id before, since = later ++ .subscribed store id :: before →
    callsAt store ((start store).length + subscriptions store before) since = changes store later

/-- How often a store changes while it has a listener in a place. -/
def changesHeard (store : StoreId) (place : Nat) (ids : List SubscriptionId) : List Moment → Nat
  | [] => 0
  | m :: past =>
    changesHeard store place ids past +
      if m.isChange store ∧ place < (enrolled store ids past).length then 1 else 0

theorem callsAt_cons (hm : ∀ c, m.call? = some c → c.1 ≠ store) :
    callsAt store place (m :: since) = callsAt store place since := by
  cases m with
  | called s id round =>
    rw [callsAt, if_neg fun h => hm _ rfl h.1]
    rfl
  | _ => rfl

theorem roll_called :
    roll store round (.called store id round :: since) = roll store round since ++ [id] := by
  change roll store round ([.called store id round] ++ since) = _
  rw [roll_append]
  simp [roll, calls, Moment.call?]

theorem roll_cons (hm : ∀ c, m.call? = some c → c.1 = store → c.2.2 ≠ round) :
    roll store round (m :: since) = roll store round since := by
  have hnone : roll store round [m] = [] := by
    refine roll_eq_nil fun c hc => ?_
    obtain ⟨m', hm', hcall⟩ := List.mem_filterMap.1 hc
    exact hm c (List.mem_singleton.1 hm' ▸ hcall)
  change roll store round ([m] ++ since) = _
  rw [roll_append, hnone, List.append_nil]

/-- A listener is called as often as there are rounds that call so many. -/
theorem callsAt_eq_card {bound : Nat} (h : ∀ c ∈ calls since, c.2.2 < bound) :
    callsAt store place since =
      ((Finset.range bound).filter fun round => place < (roll store round since).length).card := by
  induction since with
  | nil => simp [callsAt, roll, calls]
  | cons m since ih =>
    have hrest : ∀ c ∈ calls since, c.2.2 < bound := fun c hc => h c (by
      rw [← List.singleton_append, calls_append]
      exact List.mem_append_right _ hc)
    by_cases hm : ∃ id round, m = .called store id round
    · obtain ⟨id, round, rfl⟩ := hm
      have hround : round < bound := h (store, id, round) List.mem_cons_self
      have hother {round' : Nat} (hne : round' ≠ round) :
          roll store round' (.called store id round :: since) = roll store round' since :=
        roll_cons (by rintro c ⟨⟩ _; exact hne.symm)
      rw [callsAt, ih hrest]
      by_cases hplace : (roll store round since).length = place
      · have hinsert : ((Finset.range bound).filter fun round' =>
            place < (roll store round' (.called store id round :: since)).length) =
            insert round ((Finset.range bound).filter fun round' =>
              place < (roll store round' since).length) := by
          ext round'
          by_cases he : round' = round
          · subst he
            simp [roll_called, hround, hplace]
          · simp [hother he, he]
        rw [if_pos ⟨rfl, hplace⟩, hinsert, Finset.card_insert_of_notMem (by simp [hplace])]
      · rw [if_neg fun hsame => hplace hsame.2, Nat.add_zero]
        congr 1
        refine Finset.filter_congr fun round' _ => ?_
        by_cases he : round' = round
        · subst he
          rw [roll_called, List.length_append, List.length_singleton]
          omega
        · rw [hother he]
    · have hother : ∀ c, m.call? = some c → c.1 ≠ store := by
        rintro c hc rfl
        cases m with
        | called s id round =>
          cases hc
          exact hm ⟨id, round, rfl⟩
        | _ => cases hc
      rw [callsAt_cons hother, ih hrest]
      congr 1
      refine Finset.filter_congr fun round _ => ?_
      rw [roll_cons fun c hc h => absurd h (hother c hc)]

/-- A change begins a round that calls all that listen, and nothing else begins a round. -/
theorem Accounted.roll_of_suffix (h : Accounted start n [] since) {past : List Moment}
    (hpast : m :: past <:+ since) : roll store (n + past.length + 1) since =
      if m.isChange store = true then enrolled store (start store) past else [] := by
  obtain ⟨later, rfl⟩ := hpast
  split
  · next hm =>
    obtain ⟨v, rfl⟩ := Moment.isChange_iff.1 hm
    obtain ⟨_, _, -, -, -, hroll⟩ := h.told later store v past rfl
    exact hroll
  · next hm =>
    refine roll_eq_nil fun c hc hstore hround => hm ?_
    obtain ⟨v, earlier, hbegan, hlength⟩ := h.exists_changed hc (by omega)
    have hsame : Moment.changed c.1 v :: earlier = m :: past :=
      (List.suffix_of_suffix_length_le hbegan (List.suffix_append _ _)
        (by simp; omega)).eq_of_length (by simp; omega)
    exact Moment.isChange_iff.2 ⟨v, by rw [← hstore, (List.cons.inj hsame).1]⟩

/-- As many rounds call so many listeners as there are changes at which there are so many. -/
theorem Accounted.card_eq (h : Accounted start n [] since) {past : List Moment}
    (hpast : past <:+ since) :
    ((Finset.range (n + past.length + 1)).filter fun round =>
      place < (roll store round since).length).card =
        changesHeard store place (start store) past := by
  induction past with
  | nil =>
    rw [changesHeard, Finset.card_eq_zero, Finset.filter_eq_empty_iff]
    intro round hround
    rw [h.roll_eq (Nat.le_of_lt_succ (Finset.mem_range.1 hround))]
    simp
  | cons m past ih =>
    have hnew : n + past.length + 1 ∉ (Finset.range (n + past.length + 1)).filter fun round =>
        place < (roll store round since).length := by simp
    rw [List.length_cons, ← Nat.add_assoc, Finset.range_add_one, Finset.filter_insert, changesHeard,
      ← ih ((List.suffix_cons m past).trans hpast), h.roll_of_suffix hpast]
    by_cases hm : m.isChange store = true
    · rw [if_pos hm]
      by_cases hplace : place < (enrolled store (start store) past).length
      · rw [if_pos hplace, Finset.card_insert_of_notMem hnew, if_pos ⟨hm, hplace⟩]
      · rw [if_neg hplace, if_neg fun hboth => hplace hboth.2]
        rfl
    · rw [if_neg hm, List.length_nil, if_neg (Nat.not_lt_zero _), if_neg fun hboth => hm hboth.1]
      rfl

theorem Accounted.callsAt_eq (h : Accounted start n [] since) :
    callsAt store place since = changesHeard store place (start store) since := by
  rw [callsAt_eq_card fun c hc => Nat.lt_succ_of_le (h.round_le hc), h.card_eq List.suffix_rfl]

theorem changesHeard_append : changesHeard store place ids (later ++ since) =
    changesHeard store place (enrolled store ids since) later +
      changesHeard store place ids since := by
  induction later with
  | nil => exact (Nat.zero_add _).symm
  | cons m later ih =>
    rw [List.cons_append, changesHeard, changesHeard, ih, enrolled_append]
    omega

theorem length_enrolled (h : AllStay since) :
    (enrolled store ids since).length = ids.length + subscriptions store since := by
  induction since with
  | nil => rfl
  | cons m since ih =>
    have hrest := ih fun store id hmem => h store id (List.mem_cons_of_mem _ hmem)
    by_cases hm : m.enrolment? = some store
    · cases m with
      | subscribed s id =>
        cases hm
        rw [subscriptions_subscribed, ← Nat.add_assoc, ← hrest]
        change (if store = store then enrolled store ids since ++ [id] else _).length = _
        rw [if_pos rfl, List.length_append, List.length_singleton]
      | unsubscribed s id => exact absurd List.mem_cons_self (h s id)
      | _ => cases hm
    · rw [enrolled_cons hm, subscriptions_cons hm, hrest]

/-- A listener hears all changes from when it has subscribed. -/
theorem changesHeard_of_lt (h : AllStay since) (hplace : place < ids.length) :
    changesHeard store place ids since = changes store since := by
  induction since with
  | nil => rfl
  | cons m since ih =>
    have hstay : AllStay since := fun store id hmem => h store id (List.mem_cons_of_mem _ hmem)
    have hhere : place < (enrolled store ids since).length :=
      length_enrolled hstay ▸ Nat.lt_add_right _ hplace
    rw [changesHeard, ih hstay, changes, changes, List.countP_cons]
    simp [hhere]

/-- A listener hears no changes before it subscribes. -/
theorem changesHeard_eq_zero (h : AllStay since)
    (hplace : ids.length + subscriptions store since ≤ place) :
    changesHeard store place ids since = 0 := by
  induction since with
  | nil => rfl
  | cons m since ih =>
    have hstay : AllStay since := fun store id hmem => h store id (List.mem_cons_of_mem _ hmem)
    have hearlier := Nat.le_trans (Nat.add_le_add_left le_subscriptions_cons _) hplace
    rw [changesHeard, ih hstay hearlier, if_neg]
    rw [length_enrolled hstay]
    omega

/-- While nobody unsubscribes, every listener is called once for every change after it has
subscribed. -/
theorem Accounted.tallied (h : Accounted start n [] since) (hstay : AllStay since) :
    Tallied start since where
  old store place hplace := by rw [h.callsAt_eq, changesHeard_of_lt hstay hplace]
  new later store id before hsince := by
    subst hsince
    have hlater : AllStay later := fun s i hmem => hstay s i (List.mem_append_left _ hmem)
    have hbefore : AllStay before := fun s i hmem =>
      hstay s i (List.mem_append_right _ (List.mem_cons_of_mem _ hmem))
    have hsubscribed : AllStay (.subscribed store id :: before) := fun s i hmem =>
      hstay s i (List.mem_append_right _ hmem)
    have hplace : (start store).length + subscriptions store before <
        (enrolled store (start store) (.subscribed store id :: before)).length := by
      rw [length_enrolled hsubscribed, subscriptions_subscribed]
      omega
    rw [h.callsAt_eq, changesHeard_append, changesHeard_of_lt hlater hplace, changesHeard,
      changesHeard_eq_zero hbefore le_rfl]
    rfl

/-! ## The calls of one listener -/

/-- How often listeners of a store with a name are called. -/
def callsOf (store : StoreId) (id : SubscriptionId) (history : List Moment) : Nat :=
  (calls history).countP fun c => c.1 == store && c.2.1 == id

/-- Whenever a store changes, so many of its listeners have a name: one of them, if somebody listens
all the time and names do not repeat. -/
def Attends (store : StoreId) (id : SubscriptionId) (count : Nat) (ids : List SubscriptionId)
    (since : List Moment) : Prop :=
  ∀ m past, m :: past <:+ since → m.isChange store = true →
    (enrolled store ids past).count id = count

/-- Who does not subscribe or unsubscribe listens all the time. -/
theorem attends_of_forall (h : ∀ m ∈ since, m.enrolment? ≠ some store) :
    Attends store id (ids.count id) ids since := by
  intro m past hpast _
  have hsame : enrolled store ids past = ids := enrolled_of_forall fun m' hm' =>
    h m' (hpast.subset (List.mem_cons_of_mem m hm'))
  rw [hsame]

theorem callsOf_eq_sum {bound : Nat} (h : ∀ c ∈ calls since, c.2.2 < bound) :
    callsOf store id since = ∑ round ∈ Finset.range bound, (roll store round since).count id := by
  have hroll (round : Nat) : (roll store round since).count id =
      (calls since).countP fun c => (c.1 == store && c.2.1 == id) && c.2.2 == round := by
    rw [roll, List.count, List.countP_map, List.countP_filter, List.countP_reverse]
    refine List.countP_congr fun c _ => ?_
    simp only [Function.comp_apply, Bool.and_eq_true]
    tauto
  simp only [hroll, callsOf]
  generalize calls since = cs at h
  induction cs with
  | nil => simp
  | cons c cs ih =>
    rw [List.forall_mem_cons] at h
    simp only [List.countP_cons, Finset.sum_add_distrib, ← ih h.2]
    cases c.1 == store && c.2.1 == id <;> simp [h.1]

/-- Who listens all the time is called once for every change. -/
theorem Accounted.callsOf_eq (h : Accounted start n [] since) {count : Nat}
    (hattends : Attends store id count (start store) since) :
    callsOf store id since = count * changes store since := by
  have hsum {past : List Moment} (hpast : past <:+ since) :
      ∑ round ∈ Finset.range (n + past.length + 1), (roll store round since).count id =
        count * changes store past := by
    induction past with
    | nil =>
      refine Finset.sum_eq_zero fun round hround => ?_
      rw [h.roll_eq (Nat.le_of_lt_succ (Finset.mem_range.1 hround))]
      rfl
    | cons m past ih =>
      rw [List.length_cons, ← Nat.add_assoc, Finset.sum_range_succ,
        ih ((List.suffix_cons m past).trans hpast), h.roll_of_suffix hpast, changes, changes,
        List.countP_cons, Nat.mul_add]
      split
      · next hm => rw [hattends m past hpast hm, Nat.mul_one]
      · rfl
  rw [callsOf_eq_sum fun c hc => Nat.lt_succ_of_le (h.round_le hc), hsum List.suffix_rfl]

end LiveMarkup
