import LiveMarkup.Engine.World
import Mathlib.Data.List.Nodup

/-!
# How refreshes follow on changes

What happens in an engine whose sessions are the only listeners. A change of a state that belongs to
no session is told to nobody. A change of a session's state makes the session refresh, and whatever
its directives do happens before the refresh ends; but if the session is just being refreshed, a
report is all that follows (`Unfolds`). While somebody else holds the nodes, nothing can be shown,
and every refresh ends with such a report as well.

* At every moment each session is being refreshed at most once (`Unfolds.onceEach_refreshing`).
* A change of a session's state is followed by its refresh, or by exactly one report if it is just
  being refreshed (`Unfolds.answered`).
* There are no other reports of this kind than those two (`Unfolds.leftOut`).
-/

namespace LiveMarkup

/-! ## Moments -/

/-- The moment is the end of a merge, or the report of anything but a refresh that was left out. -/
def Moment.IsAside : Moment → Prop
  | reported d => d ≠ .reentrantRefresh
  | merged _ _ _ _ => True
  | _ => False

/-- What is reported at a moment. -/
def Moment.report? : Moment → Option Diagnostic
  | reported d => some d
  | _ => none

/-- The value that a store takes at a moment. -/
def Moment.value? (store : StoreId) : Moment → Option OrderedValue
  | changed store' v => if store' = store then some v else none
  | _ => none

/-- The sessions whose refresh has begun and not ended, the latest first. At the start of the
history, it is those of `busy`. -/
def refreshing (busy : List SessionId) : List Moment → List SessionId
  | [] => busy
  | .began s :: before => s :: refreshing busy before
  | .ended s :: before => (refreshing busy before).erase s
  | _ :: before => refreshing busy before

/-- What is reported at the end of a refresh: if somebody else holds the nodes, nothing can be
shown, which is reported as if the refresh were left out. -/
def unshown (isLocked : Bool) : List Moment :=
  if isLocked then [.reported .reentrantRefresh] else []

/-- Some sessions, each once. -/
def OnceEach (home : SessionId → Option StoreId) (busy : List SessionId) : Prop :=
  busy.Nodup ∧ ∀ s ∈ busy, home s ≠ none

/-- All moments are asides. -/
def AllAside (history : List Moment) : Prop := ∀ m ∈ history, m.IsAside

variable {home : SessionId → Option StoreId} {isLocked : Bool} {busy : List SessionId}
  {s : SessionId} {store : StoreId} {m : Moment} {v : OrderedValue}
  {since later before : List Moment}

theorem OnceEach.cons (h : OnceEach home busy) (hs : home s ≠ none) (hidle : s ∉ busy) :
    OnceEach home (s :: busy) :=
  ⟨List.nodup_cons.2 ⟨hidle, h.1⟩, List.forall_mem_cons.2 ⟨hs, h.2⟩⟩

theorem refreshing_append (a b : List Moment) :
    refreshing busy (a ++ b) = refreshing (refreshing busy b) a := by
  induction a with
  | nil => rfl
  | cons m a ih => cases m <;> simp [refreshing, ih]

theorem Moment.IsAside.refreshing_cons (h : m.IsAside) :
    refreshing busy (m :: before) = refreshing busy before := by
  cases m <;> first | rfl | exact h.elim

theorem AllAside.refreshing_eq (h : AllAside since) : refreshing busy since = busy := by
  induction since with
  | nil => rfl
  | cons m since ih =>
    rw [AllAside, List.forall_mem_cons] at h
    rw [h.1.refreshing_cons, ih h.2]

theorem refreshing_of_suffix_unshown (h : since <:+ unshown isLocked) :
    refreshing busy since = busy := by
  cases isLocked with
  | false => rw [List.suffix_nil.1 h, refreshing]
  | true =>
    rcases List.suffix_cons_iff.1 h with rfl | h
    · rfl
    · rw [List.suffix_nil.1 h, refreshing]

theorem AllAside.nil : AllAside [] := nofun

theorem AllAside.cons (hm : m.IsAside) (h : AllAside since) : AllAside (m :: since) :=
  List.forall_mem_cons.2 ⟨hm, h⟩

theorem AllAside.append (h : AllAside since) (h' : AllAside later) : AllAside (later ++ since) :=
  List.forall_mem_append.2 ⟨h', h⟩

/-! ## What follows on a change -/

/-- How a history can go on while the sessions of `busy` are being refreshed, and end with the same
sessions being refreshed. `home` is the store of each session. -/
inductive Unfolds (home : SessionId → Option StoreId) (isLocked : Bool) :
    List SessionId → List Moment → Prop
  | start (busy : List SessionId) : Unfolds home isLocked busy []
  | aside {busy : List SessionId} {m : Moment} {since : List Moment} (hm : m.IsAside)
      (h : Unfolds home isLocked busy since) : Unfolds home isLocked busy (m :: since)
  /-- Nobody listens to the store. -/
  | unheard {busy : List SessionId} {store : StoreId} {v : OrderedValue} {since : List Moment}
      (hstore : ∀ s, home s ≠ some store) (h : Unfolds home isLocked busy since) :
      Unfolds home isLocked busy (.told store :: .changed store v :: since)
  /-- The session of the store is being refreshed. -/
  | skipped {busy : List SessionId} {s : SessionId} {store : StoreId} {v : OrderedValue}
      {id : SubscriptionId} {round : Nat} {asides since : List Moment} (hs : home s = some store)
      (hbusy : s ∈ busy) (hasides : AllAside asides) (h : Unfolds home isLocked busy since) :
      Unfolds home isLocked busy (.told store :: .reported .reentrantRefresh ::
        (asides ++ .called store id round :: .changed store v :: since))
  /-- The session of the store is refreshed. -/
  | refreshed {busy : List SessionId} {s : SessionId} {store : StoreId} {v : OrderedValue}
      {id : SubscriptionId} {round : Nat} {asides inner since : List Moment}
      (hs : home s = some store) (hidle : s ∉ busy) (hasides : AllAside asides)
      (h : Unfolds home isLocked busy since) (hinner : Unfolds home isLocked (s :: busy) inner) :
      Unfolds home isLocked busy (.told store :: .ended s :: (unshown isLocked ++ inner ++
        .began s :: (asides ++ .called store id round :: .changed store v :: since)))

/-- What a session does when it is told of a change. -/
inductive Response (home : SessionId → Option StoreId) (isLocked : Bool) (busy : List SessionId)
    (s : SessionId) : List Moment → Prop
  | skipped {asides : List Moment} (hbusy : s ∈ busy) (hasides : AllAside asides) :
      Response home isLocked busy s (.reported .reentrantRefresh :: asides)
  | refreshed {asides inner : List Moment} (hidle : s ∉ busy) (hasides : AllAside asides)
      (hinner : Unfolds home isLocked (s :: busy) inner) :
      Response home isLocked busy s
        (.ended s :: (unshown isLocked ++ inner ++ .began s :: asides))

theorem Response.unfolds {response : List Moment} (h : Response home isLocked busy s response)
    (hs : home s = some store) (id : SubscriptionId) (round : Nat) (v : OrderedValue) :
    Unfolds home isLocked busy
      (.told store :: (response ++ [.called store id round, .changed store v])) := by
  cases h with
  | skipped hbusy hasides => exact .skipped hs hbusy hasides (.start busy)
  | refreshed hidle hasides hinner =>
    simpa using Unfolds.refreshed hs hidle hasides (.start busy) hinner

/-- What followed on a change of a session's state. The session was told, and then there is a report
and nothing more if it was being refreshed, and its refresh otherwise. -/
def Answered (busy : List SessionId) (s : SessionId) (store : StoreId) (later : List Moment) :
    Prop :=
  ∃ further asides id round, AllAside asides ∧
    (s ∈ busy ∧ later = further ++ .told store :: .reported .reentrantRefresh ::
        (asides ++ [.called store id round]) ∨
      s ∉ busy ∧ later = further ++ .began s :: (asides ++ [.called store id round]))

/-- Why a refresh was reported as left out. A session was told of a change while it was being
refreshed; or somebody else holds the nodes, and this is the end of a refresh. -/
def LeftOut (home : SessionId → Option StoreId) (isLocked : Bool) (busy : List SessionId)
    (later before : List Moment) : Prop :=
  (isLocked = true ∧ ∃ s, [.ended s] <:+ later) ∨
    ∃ s store v id round asides earlier, home s = some store ∧ s ∈ refreshing busy earlier ∧
      AllAside asides ∧ before = asides ++ .called store id round :: .changed store v :: earlier

theorem LeftOut.append (h : LeftOut home isLocked busy later before) (further : List Moment) :
    LeftOut home isLocked busy (further ++ later) before :=
  h.imp_left fun ⟨hlocked, s, hs⟩ => ⟨hlocked, s, hs.trans (List.suffix_append further later)⟩

theorem Answered.append (h : Answered busy s store later) (further : List Moment) :
    Answered busy s store (further ++ later) := by
  obtain ⟨further', asides, id, round, hasides, ⟨hs, rfl⟩ | ⟨hs, rfl⟩⟩ := h
  · exact ⟨further ++ further', asides, id, round, hasides, .inl ⟨hs, by simp⟩⟩
  · exact ⟨further ++ further', asides, id, round, hasides, .inr ⟨hs, by simp⟩⟩

/-- What happened before does not matter apart from which sessions are being refreshed. -/
theorem LeftOut.after {busy' : List SessionId} {first : List Moment}
    (h : LeftOut home isLocked busy' later before) (hfirst : refreshing busy first = busy') :
    LeftOut home isLocked busy later (before ++ first) := by
  rcases h with hlocked | ⟨s, store, v, id, round, asides, earlier, hs, hmem, hasides, rfl⟩
  · exact .inl hlocked
  · refine .inr ⟨s, store, v, id, round, asides, earlier ++ first, hs, ?_, hasides, by simp⟩
    rwa [refreshing_append, hfirst]

/-- A place in a list that is put together is in one of its parts. -/
theorem append_eq_append_cons {α : Type} {a b later before : List α} {m : α}
    (h : a ++ b = later ++ m :: before) :
    (∃ between, a = later ++ m :: between ∧ before = between ++ b) ∨
      ∃ between, later = a ++ between ∧ b = between ++ m :: before := by
  rcases List.append_eq_append_iff.1 h with ⟨between, hl, hb⟩ | ⟨between, ha, hm⟩
  · exact .inr ⟨between, hl, hb⟩
  · cases between with
    | nil => exact .inr ⟨[], by simpa using ha.symm, by simpa using hm.symm⟩
    | cons m' between =>
      cases hm
      exact .inl ⟨between, ha, rfl⟩

/-- What is reported at the end of a refresh is not the report of anything else. -/
theorem unshown_append_eq (h : unshown isLocked ++ since = later ++ m :: before)
    (hm : m ≠ .reported .reentrantRefresh) :
    ∃ between, later = unshown isLocked ++ between ∧ since = between ++ m :: before := by
  rcases append_eq_append_cons h with ⟨between, hunshown, -⟩ | hsince
  · have hmem : m ∈ unshown isLocked := hunshown ▸ by simp
    cases isLocked with
    | false => exact nomatch hmem
    | true => exact absurd (List.mem_singleton.1 hmem) hm
  · exact hsince

theorem cons_eq_append_cons {α : Type} {a m : α} {b later before : List α}
    (h : a :: b = later ++ m :: before) (hne : a ≠ m) :
    ∃ between, later = a :: between ∧ b = between ++ m :: before := by
  cases later with
  | nil => exact absurd (List.cons.inj h).1 hne
  | cons a' between =>
    cases h
    exact ⟨between, rfl, rfl⟩

namespace Unfolds

theorem append (h : Unfolds home isLocked busy since) (h' : Unfolds home isLocked busy later) :
    Unfolds home isLocked busy (later ++ since) := by
  induction h' with
  | start _ => exact h
  | aside hm _ ih => exact .aside hm (ih h)
  | unheard hstore _ ih => exact .unheard hstore (ih h)
  | skipped hs hbusy hasides _ ih => simpa using skipped hs hbusy hasides (ih h)
  | refreshed hs hidle hasides _ hinner ih _ =>
    simpa using refreshed hs hidle hasides (ih h) hinner

theorem of_allAside (h : AllAside since) : Unfolds home isLocked busy since := by
  induction since with
  | nil => exact .start busy
  | cons m since ih =>
    rw [AllAside, List.forall_mem_cons] at h
    exact .aside h.1 (ih h.2)

/-- When a session is told of a change, nothing has begun or ended since. -/
theorem refreshing_told {id : SubscriptionId} {round : Nat} {asides : List Moment}
    (hasides : AllAside asides) :
    refreshing busy (asides ++ .called store id round :: .changed store v :: since) =
      refreshing busy since := by
  rw [refreshing_append, hasides.refreshing_eq]
  rfl

/-- When a session has been told of a change, its refresh begins. -/
theorem refreshing_began {id : SubscriptionId} {round : Nat} {asides : List Moment}
    (hasides : AllAside asides) (hsince : refreshing busy since = busy) (s : SessionId) :
    refreshing busy (.began s ::
      (asides ++ .called store id round :: .changed store v :: since)) = s :: busy := by
  rw [refreshing, refreshing_told hasides, hsince]

/-- When what happens in a refresh has happened, the refresh ends. -/
theorem refreshing_ended {began inner : List Moment} (hbegan : refreshing busy began = s :: busy)
    (hinner : refreshing (s :: busy) inner = s :: busy) (isLocked : Bool) :
    refreshing busy (.ended s :: (unshown isLocked ++ inner ++ began)) = busy := by
  rw [refreshing, refreshing_append, hbegan, refreshing_append, hinner,
    refreshing_of_suffix_unshown List.suffix_rfl, List.erase_cons_head]

/-- In the end the same sessions are being refreshed as at the start. -/
theorem refreshing_eq (h : Unfolds home isLocked busy since) : refreshing busy since = busy := by
  induction h with
  | start _ => rfl
  | aside hm _ ih => rw [hm.refreshing_cons, ih]
  | unheard _ _ ih => exact ih
  | skipped _ _ hasides _ ih => exact (refreshing_told hasides).trans ih
  | refreshed _ _ hasides _ _ ih ihinner =>
    exact refreshing_ended (refreshing_began hasides ih _) ihinner isLocked

/-! ## At every moment -/

theorem suffix_append_cases {α : Type} {t a b : List α} (h : t <:+ a ++ b) :
    t <:+ b ∨ ∃ t', t' <:+ a ∧ t = t' ++ b := by
  obtain ⟨u, hu⟩ := h
  rcases List.append_eq_append_iff.1 hu with ⟨t', ha, ht⟩ | ⟨u', _, hb⟩
  · exact .inr ⟨t', ⟨u, ha.symm⟩, ht⟩
  · exact .inl ⟨u', hb.symm⟩

/-- The suffixes of what happened when a session had been told of a change. -/
theorem refreshing_suffix_told {id : SubscriptionId} {round : Nat} {asides t : List Moment}
    (hasides : AllAside asides)
    (ht : t <:+ asides ++ .called store id round :: .changed store v :: since) :
    refreshing busy t = refreshing busy since ∨ t <:+ since := by
  rcases suffix_append_cases ht with ht | ⟨t', ⟨u, rfl⟩, rfl⟩
  · rcases List.suffix_cons_iff.1 ht with rfl | ht
    · exact .inl rfl
    · rcases List.suffix_cons_iff.1 ht with rfl | ht
      · exact .inl rfl
      · exact .inr ht
  · exact .inl (refreshing_told (List.forall_mem_append.1 hasides).2)

/-- At every moment each session is being refreshed at most once. -/
theorem onceEach_refreshing (h : Unfolds home isLocked busy since) (hbusy : OnceEach home busy)
    {t : List Moment} (ht : t <:+ since) : OnceEach home (refreshing busy t) := by
  induction h generalizing t with
  | start busy =>
    rw [List.suffix_nil.1 ht]
    exact hbusy
  | aside hm h ih =>
    rcases List.suffix_cons_iff.1 ht with rfl | ht
    · rw [hm.refreshing_cons, h.refreshing_eq]
      exact hbusy
    · exact ih hbusy ht
  | unheard hstore h ih =>
    rcases List.suffix_cons_iff.1 ht with rfl | ht
    · rw [(unheard hstore h).refreshing_eq]
      exact hbusy
    · rcases List.suffix_cons_iff.1 ht with rfl | ht
      · have hsince := ih hbusy List.suffix_rfl
        exact hsince
      · exact ih hbusy ht
  | skipped hs hmem hasides h ih =>
    have hsince := ih hbusy List.suffix_rfl
    rcases List.suffix_cons_iff.1 ht with rfl | ht
    · rw [(skipped hs hmem hasides h).refreshing_eq]
      exact hbusy
    · rcases List.suffix_cons_iff.1 ht with rfl | ht
      · rwa [← refreshing_told hasides] at hsince
      · rcases refreshing_suffix_told hasides ht with heq | ht
        · rwa [heq]
        · exact ih hbusy ht
  | @refreshed busy s store v id round asides inner since hs hidle hasides h hinner ih ihinner =>
    have hsince := ih hbusy List.suffix_rfl
    have hmore : OnceEach home (s :: busy) := hbusy.cons (by simp [hs]) hidle
    have hbegan : refreshing busy (.began s ::
        (asides ++ .called store id round :: .changed store v :: since)) = s :: busy :=
      refreshing_began hasides h.refreshing_eq s
    rcases List.suffix_cons_iff.1 ht with rfl | ht
    · rw [(refreshed hs hidle hasides h hinner).refreshing_eq]
      exact hbusy
    · rcases List.suffix_cons_iff.1 ht with rfl | ht
      · rwa [refreshing_ended hbegan hinner.refreshing_eq]
      · rcases suffix_append_cases ht with ht | ⟨t', ht', rfl⟩
        · rcases List.suffix_cons_iff.1 ht with rfl | ht
          · rwa [hbegan]
          · rcases refreshing_suffix_told hasides ht with heq | ht
            · rwa [heq]
            · exact ih hbusy ht
        · rw [refreshing_append, hbegan]
          rcases suffix_append_cases ht' with ht' | ⟨t', hreport, rfl⟩
          · exact ihinner hmore ht'
          · rw [refreshing_append, hinner.refreshing_eq, refreshing_of_suffix_unshown hreport]
            exact hmore

/-! ## What follows on a change -/

/-- Where a change is found in what happened when a session had been told of another one. -/
theorem changed_told_cases {id : SubscriptionId} {round : Nat} {asides : List Moment}
    {store' : StoreId} {v' : OrderedValue} (hasides : AllAside asides)
    (h : asides ++ .called store id round :: .changed store v :: since =
      later ++ .changed store' v' :: before) :
    (later = asides ++ [.called store id round] ∧ store' = store ∧ before = since) ∨
      ∃ between, later = asides ++ .called store id round :: .changed store v :: between ∧
        since = between ++ .changed store' v' :: before := by
  rcases append_eq_append_cons h with ⟨between, rfl, -⟩ | ⟨between, rfl, hcalled⟩
  · exact absurd (hasides (.changed store' v') (by simp)) (by simp [Moment.IsAside])
  · obtain ⟨between, rfl, hchanged⟩ := cons_eq_append_cons hcalled (by simp)
    cases between with
    | nil =>
      cases hchanged
      exact .inl ⟨rfl, rfl, rfl⟩
    | cons m between =>
      cases hchanged
      exact .inr ⟨between, rfl, rfl⟩

/-- A change of a session's state is followed by the session's refresh, or by one report if it is
being refreshed. -/
theorem answered (h : Unfolds home isLocked busy since)
    (hhome : ∀ s s' store, home s = some store → home s' = some store → s = s')
    (hsince : since = later ++ .changed store v :: before) (hs : home s = some store) :
    Answered (refreshing busy before) s store later := by
  induction h generalizing later before with
  | start busy => simp at hsince
  | aside hm h ih =>
    obtain ⟨between, rfl, hrest⟩ := cons_eq_append_cons hsince (by rintro rfl; exact hm)
    exact (ih hrest).append [_]
  | unheard hstore h ih =>
    obtain ⟨between, rfl, hrest⟩ := cons_eq_append_cons hsince (by simp)
    cases between with
    | nil =>
      cases hrest
      exact absurd hs (hstore s)
    | cons m between =>
      cases hrest
      exact (ih rfl).append [_, _]
  | @skipped busy s' store' v' id round asides since hs' hmem hasides h ih =>
    obtain ⟨_, rfl, hreport⟩ := cons_eq_append_cons hsince (by simp)
    obtain ⟨_, rfl, hrest⟩ := cons_eq_append_cons hreport (by simp)
    rcases changed_told_cases hasides hrest with ⟨rfl, rfl, rfl⟩ | ⟨between, rfl, hearlier⟩
    · obtain rfl := hhome s s' store hs hs'
      rw [h.refreshing_eq]
      exact ⟨[], asides, id, round, hasides, .inl ⟨hmem, rfl⟩⟩
    · have := (ih hearlier).append
        (.told store' :: .reported .reentrantRefresh ::
          (asides ++ [.called store' id round, .changed store' v']))
      simpa using this
  | @refreshed busy s' store' v' id round asides inner since hs' hidle hasides h hinner ih
      ihinner =>
    obtain ⟨_, rfl, hended⟩ := cons_eq_append_cons hsince (by simp)
    obtain ⟨_, rfl, hrest⟩ := cons_eq_append_cons hended (by simp)
    rcases append_eq_append_cons hrest with ⟨more, hin, rfl⟩ | ⟨_, rfl, hbegan⟩
    · obtain ⟨_, rfl, hinside⟩ := unshown_append_eq hin (by simp)
      rw [refreshing_append, refreshing_began hasides h.refreshing_eq]
      exact (ihinner hinside).append (_ :: _ :: unshown isLocked)
    · obtain ⟨_, rfl, htold⟩ := cons_eq_append_cons hbegan (by simp)
      rcases changed_told_cases hasides htold with ⟨rfl, rfl, rfl⟩ | ⟨between, rfl, hearlier⟩
      · obtain rfl := hhome s s' store hs hs'
        rw [h.refreshing_eq]
        exact ⟨.told store :: .ended s :: (unshown isLocked ++ inner), asides, id, round, hasides,
          .inr ⟨hidle, rfl⟩⟩
      · have := (ih hearlier).append
          (.told store' :: .ended s' :: (unshown isLocked ++ inner ++ .began s' ::
            (asides ++ [.called store' id round, .changed store' v'])))
        simpa using this

/-- No refresh was reported as left out when a session had just been told of a change. -/
theorem reported_told {id : SubscriptionId} {round : Nat} {asides : List Moment}
    (hasides : AllAside asides)
    (h : asides ++ .called store id round :: .changed store v :: since =
      later ++ .reported .reentrantRefresh :: before) :
    ∃ between, later = asides ++ .called store id round :: .changed store v :: between ∧
      since = between ++ .reported .reentrantRefresh :: before := by
  rcases append_eq_append_cons h with ⟨between, rfl, -⟩ | ⟨between, rfl, hcalled⟩
  · exact absurd rfl (hasides (.reported .reentrantRefresh) (by simp))
  · obtain ⟨_, rfl, hchanged⟩ := cons_eq_append_cons hcalled (by simp)
    obtain ⟨between, rfl, hsince⟩ := cons_eq_append_cons hchanged (by simp)
    exact ⟨between, rfl, hsince⟩

/-- A report at the end of a refresh is one because somebody else holds the nodes. -/
theorem reported_unshown {inner : List Moment}
    (h : unshown isLocked ++ inner = later ++ .reported .reentrantRefresh :: before) :
    (isLocked = true ∧ later = []) ∨ ∃ between, later = unshown isLocked ++ between ∧
      inner = between ++ .reported .reentrantRefresh :: before := by
  cases isLocked with
  | false => exact .inr ⟨later, rfl, h⟩
  | true =>
    cases later with
    | nil => exact .inl ⟨rfl, rfl⟩
    | cons m later =>
      obtain ⟨rfl, hinner⟩ := List.cons.inj h
      exact .inr ⟨later, rfl, hinner⟩

/-- A refresh is reported as left out only when a session was told of a change while it was being
refreshed, and at the end of refreshes while somebody else holds the nodes. -/
theorem leftOut (h : Unfolds home isLocked busy since)
    (hsince : since = later ++ .reported .reentrantRefresh :: before) :
    LeftOut home isLocked busy later before := by
  induction h generalizing later before with
  | start busy => simp at hsince
  | aside hm h ih =>
    obtain ⟨_, rfl, hrest⟩ := cons_eq_append_cons hsince (by rintro rfl; exact hm rfl)
    exact (ih hrest).append [_]
  | unheard hstore h ih =>
    obtain ⟨_, rfl, hchanged⟩ := cons_eq_append_cons hsince (by simp)
    obtain ⟨_, rfl, hrest⟩ := cons_eq_append_cons hchanged (by simp)
    exact (ih hrest).append [_, _]
  | @skipped busy s store v id round asides since hs hmem hasides h ih =>
    obtain ⟨later, rfl, hreport⟩ := cons_eq_append_cons hsince (by simp)
    cases later with
    | nil =>
      cases hreport
      exact .inr ⟨s, store, v, id, round, asides, since, hs, by rwa [h.refreshing_eq], hasides, rfl⟩
    | cons m later =>
      obtain ⟨_, rfl, hearlier⟩ := reported_told hasides (List.cons.inj hreport).2
      have := (ih hearlier).append (.told store :: m ::
        (asides ++ [.called store id round, .changed store v]))
      simpa using this
  | @refreshed busy s store v id round asides inner since hs hidle hasides h hinner ih ihinner =>
    obtain ⟨_, rfl, hended⟩ := cons_eq_append_cons hsince (by simp)
    obtain ⟨_, rfl, hrest⟩ := cons_eq_append_cons hended (by simp)
    rcases append_eq_append_cons hrest with ⟨more, hin, rfl⟩ | ⟨_, rfl, hbegan⟩
    · rcases reported_unshown hin with ⟨hlocked, rfl⟩ | ⟨_, rfl, hinside⟩
      · exact .inl ⟨hlocked, s, [_], rfl⟩
      · exact ((ihinner hinside).after (refreshing_began hasides h.refreshing_eq s)).append
          (_ :: _ :: unshown isLocked)
    · obtain ⟨_, rfl, htold⟩ := cons_eq_append_cons hbegan (by simp)
      obtain ⟨_, rfl, hearlier⟩ := reported_told hasides htold
      have := (ih hearlier).append
        (.told store :: .ended s :: (unshown isLocked ++ inner ++ .began s ::
          (asides ++ [.called store id round, .changed store v])))
      simpa using this

end Unfolds

end LiveMarkup
