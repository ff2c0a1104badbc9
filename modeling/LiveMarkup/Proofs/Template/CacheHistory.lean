import LiveMarkup.Proofs.OrderedMap
import LiveMarkup.Template.Cache
import Mathlib.Data.Finset.Dedup
import Mathlib.Data.Finset.Card

/-!
# A cache and its history

Whatever calls a cache has had (`TemplateCache.run`), what it holds can be told from its history
(`TemplateCache.run_agrees`).

* No more templates are held than the limit says, and each locator once.
* What is held under a locator was stored there last, and the cache was not cleared since.
* A template that was stored is held until the cache is cleared or until as many other locators as
  the limit says were stored after it, unless a lookup finds it too old.

The history is a list of what was done to the templates (`TemplateCache.Use`), latest first. A
source may answer whatever it likes each time that it is asked.
-/

namespace LiveMarkup

namespace TemplateCache

/-! ## Calls -/

/-- A call of a cache, the source being what it is at that time. -/
inductive Call
  | get (locator : String) (now : Nat)
  | insert (locator text : String) (now : Nat)
  | getOrFetch (locator : String) (now : Nat) (source : String → Except FetchError String)
  | clear

/-- The locator that a call looks up, and when. -/
def Call.lookup? : Call → Option (String × Nat)
  | .get locator now => some (locator, now)
  | .getOrFetch locator now _ => some (locator, now)
  | _ => none

/-- What comes of a call: the answer if it has one, what the source was asked for, and the cache. -/
structure Outcome where
  answer? : Option (Except FetchError String)
  asked : List String
  cache : TemplateCache

/-- A source that notes what it is asked for. -/
def noting (source : String → Except FetchError String) (locator : String) :
    StateM (List String) (Except FetchError String) := do
  modify (locator :: ·)
  pure (source locator)

/-- Carries out a call. -/
def perform (cache : TemplateCache) : Call → Outcome
  | .get locator now =>
    let (text?, cache) := cache.get locator now
    ⟨text?.map .ok, [], cache⟩
  | .insert locator text now => ⟨none, [], cache.insert locator text now⟩
  | .getOrFetch locator now source =>
    let ((answer, cache), asked) := (getOrFetch (noting source) cache locator now).run []
    ⟨some answer, asked, cache⟩
  | .clear => ⟨none, [], cache.clear⟩

/-! ## Histories -/

/-- What is done to the templates of a cache. -/
inductive Use
  | lookup (locator : String) (now : Nat)
  | store (locator text : String) (now : Nat)
  | clear
  deriving DecidableEq, Repr

/-- What a call does, latest first. What the source was asked for and answered with is stored. -/
def Call.uses (call : Call) (outcome : Outcome) : List Use :=
  match call with
  | .get locator now => [.lookup locator now]
  | .insert locator text now => [.store locator text now]
  | .getOrFetch locator now _ =>
    match outcome.asked, outcome.answer? with
    | _ :: _, some (.ok text) => [.store locator text now, .lookup locator now]
    | _, _ => [.lookup locator now]
  | .clear => [.clear]

/-- A cache and what was done to it, latest first. -/
structure Record where
  cache : TemplateCache
  history : List Use

/-- The record after one call more. -/
def Record.call (r : Record) (c : Call) : Record :=
  let outcome := r.cache.perform c
  ⟨outcome.cache, c.uses outcome ++ r.history⟩

/-- A new cache after a sequence of calls. -/
def run (limit lifetime : Nat) (calls : List Call) : Record :=
  calls.foldl Record.call ⟨{ limit, lifetime }, []⟩

/-- The locator under which something is stored. -/
def Use.stored? : Use → Option String
  | .store locator _ _ => some locator
  | _ => none

/-- A template was stored last under a locator, and the cache was not cleared since. -/
def IsLatest (history : List Use) (locator : String) (entry : CachedTemplate) : Prop :=
  ∃ later earlier, history = later ++ .store locator entry.text entry.storedAt :: earlier ∧
    ∀ use ∈ later, use ≠ .clear ∧ use.stored? ≠ some locator

/-- A template that was stored at `time` under `locator` is neither cleared nor replaced, nor found
too old. -/
def Use.Spares (locator : String) (time lifetime : Nat) : Use → Prop
  | .lookup other now => other = locator → now - time < lifetime
  | .store other _ _ => other ≠ locator
  | .clear => False

instance (locator : String) (time lifetime : Nat) (use : Use) :
    Decidable (use.Spares locator time lifetime) :=
  match use with
  | .lookup other now => inferInstanceAs (Decidable (other = locator → now - time < lifetime))
  | .store other _ _ => inferInstanceAs (Decidable (other ≠ locator))
  | .clear => inferInstanceAs (Decidable False)

/-- The other locators under which something was stored since the last time for this one. -/
def storedSince (locator : String) : List Use → List String
  | [] => []
  | .store other _ _ :: earlier =>
    if other = locator then [] else other :: storedSince locator earlier
  | _ :: earlier => storedSince locator earlier

/-- What a cache holds is what its history says. -/
structure Agrees (cache : TemplateCache) (history : List Use) : Prop where
  size_le : cache.size ≤ cache.limit
  distinct : OrderedMap.Distinct cache.entries
  latest : ∀ locator entry, OrderedMap.find? cache.entries locator = some entry →
    IsLatest history locator entry
  /-- The older a template is, the further in front it stands. -/
  ordered : cache.entries.Pairwise fun older newer => newer.1 ∈ storedSince older.1 history
  kept : ∀ later earlier locator text time, history = later ++ .store locator text time :: earlier →
    (∀ use ∈ later, use.Spares locator time cache.lifetime) →
    (later.filterMap Use.stored?).toFinset.card < cache.limit →
    OrderedMap.find? cache.entries locator = some ⟨text, time⟩

variable {cache : TemplateCache} {history : List Use} {locator other text : String} {now time : Nat}
  {entry : CachedTemplate}

/-! ## Looking up -/

theorem get_eq_of_find? (h : OrderedMap.find? cache.entries locator = some entry) :
    cache.get locator now = if now - entry.storedAt < cache.lifetime then (some entry.text, cache)
      else (none, { cache with entries := OrderedMap.erase cache.entries locator }) := by
  rw [get, h]

/-- A lookup leaves the cache as it is, or removes a template that is too old. -/
theorem get_cases (cache : TemplateCache) (locator : String) (now : Nat) :
    (cache.get locator now).2 = cache ∨
      ∃ entry, OrderedMap.find? cache.entries locator = some entry ∧
        cache.lifetime ≤ now - entry.storedAt ∧
        (cache.get locator now).2 =
          { cache with entries := OrderedMap.erase cache.entries locator } := by
  cases h : OrderedMap.find? cache.entries locator with
  | none =>
    left
    rw [get, h]
  | some entry =>
    rw [get_eq_of_find? h]
    split
    · exact .inl rfl
    · next hold => exact .inr ⟨entry, rfl, Nat.not_lt.1 hold, rfl⟩

/-- A hit gives what is held, if it is not too old. -/
theorem exists_of_get_eq_some (h : (cache.get locator now).1 = some text) :
    ∃ time, OrderedMap.find? cache.entries locator = some ⟨text, time⟩ ∧
      now - time < cache.lifetime := by
  cases he : OrderedMap.find? cache.entries locator with
  | none =>
    rw [get, he] at h
    cases h
  | some entry =>
    rw [get_eq_of_find? he] at h
    split at h
    · next hnew =>
      cases h
      exact ⟨entry.storedAt, rfl, hnew⟩
    · cases h

/-! ## What a use does -/

/-- The cache after a use. -/
def after (cache : TemplateCache) : Use → TemplateCache
  | .lookup locator now => (cache.get locator now).2
  | .store locator text now => cache.insert locator text now
  | .clear => cache.clear

theorem limit_after (cache : TemplateCache) (use : Use) :
    (cache.after use).limit = cache.limit := by
  cases use with
  | lookup locator now =>
    obtain h | ⟨entry, -, -, h⟩ := cache.get_cases locator now
    · rw [after, h]
    · rw [after, h]
  | store locator text now =>
    rw [after, insert]
    split <;> rfl
  | clear => rfl

theorem lifetime_after (cache : TemplateCache) (use : Use) :
    (cache.after use).lifetime = cache.lifetime := by
  cases use with
  | lookup locator now =>
    obtain h | ⟨entry, -, -, h⟩ := cache.get_cases locator now
    · rw [after, h]
    · rw [after, h]
  | store locator text now =>
    rw [after, insert]
    split <;> rfl
  | clear => rfl

/-- What remains of the templates when one is stored: the newest ones under other locators. -/
def spared (cache : TemplateCache) (locator : String) : OrderedMap String CachedTemplate :=
  let others := OrderedMap.erase cache.entries locator
  others.drop (others.length + 1 - cache.limit)

theorem entries_insert (h : cache.limit ≠ 0) (locator text : String) (now : Nat) :
    (cache.insert locator text now).entries = cache.spared locator ++ [(locator, ⟨text, now⟩)] := by
  rw [insert, if_neg h]
  rfl

theorem spared_sublist (cache : TemplateCache) (locator : String) :
    (cache.spared locator).Sublist (OrderedMap.erase cache.entries locator) :=
  List.drop_sublist _ _

theorem mem_spared (h : OrderedMap.Distinct cache.entries)
    (hmem : (other, entry) ∈ cache.spared locator) :
    other ≠ locator ∧ (other, entry) ∈ cache.entries := by
  have herase := (cache.spared_sublist locator).subset hmem
  have hfind := (h.erase locator).find?_eq_some_iff.2 herase
  rw [OrderedMap.find?_erase h] at hfind
  split at hfind
  · cases hfind
  · next hne => exact ⟨Ne.symm hne, OrderedMap.mem_of_find? hfind⟩

theorem distinct_insert (h : OrderedMap.Distinct cache.entries) (hlimit : cache.limit ≠ 0) :
    OrderedMap.Distinct (cache.insert locator text now).entries := by
  rw [entries_insert hlimit, OrderedMap.Distinct, List.map_append, List.map_singleton,
    List.nodup_append]
  refine ⟨(h.erase locator).sublist ((cache.spared_sublist locator).map _),
    List.nodup_singleton _, ?_⟩
  rintro other hother _ hself rfl
  obtain ⟨⟨_, entry⟩, hmem, rfl⟩ := List.mem_map.1 hother
  exact (mem_spared h hmem).1 (List.mem_singleton.1 hself)

/-! ## Histories of a use more -/

theorem isLatest_store (history : List Use) (locator text : String) (now : Nat) :
    IsLatest (.store locator text now :: history) locator ⟨text, now⟩ :=
  ⟨[], history, rfl, nofun⟩

theorem IsLatest.cons (h : IsLatest history locator entry) {use : Use} (hclear : use ≠ .clear)
    (hstored : use.stored? ≠ some locator) : IsLatest (use :: history) locator entry := by
  obtain ⟨later, earlier, rfl, hlater⟩ := h
  exact ⟨use :: later, earlier, rfl, List.forall_mem_cons.2 ⟨⟨hclear, hstored⟩, hlater⟩⟩

theorem cons_eq_append {use : Use} {later earlier : List Use}
    (h : use :: history = later ++ .store locator text time :: earlier) :
    (later = [] ∧ use = .store locator text time) ∨
      ∃ rest, later = use :: rest ∧ history = rest ++ .store locator text time :: earlier := by
  cases later with
  | nil => exact .inl ⟨rfl, (List.cons.inj h).1⟩
  | cons first rest =>
    obtain ⟨rfl, hrest⟩ := List.cons.inj h
    exact .inr ⟨rest, rfl, hrest⟩

/-- Since its latest insertion, a locator is followed by what was stored then. -/
theorem storedSince_append {later earlier : List Use}
    (h : ∀ use ∈ later, use.stored? ≠ some locator) :
    storedSince locator (later ++ .store locator text time :: earlier) =
      later.filterMap Use.stored? := by
  induction later with
  | nil => exact if_pos rfl
  | cons use rest ih =>
    rw [List.forall_mem_cons] at h
    have hrest := ih h.2
    cases use with
    | lookup other now => exact hrest
    | store other text now =>
      have hne : other ≠ locator := fun he => h.1 (he ▸ rfl)
      rw [List.cons_append, storedSince, if_neg hne, hrest]
      rfl
    | clear => exact hrest

theorem Use.Spares.stored?_ne {use : Use} {lifetime : Nat} (h : use.Spares locator time lifetime) :
    use.stored? ≠ some locator := by
  cases use with
  | lookup other now => nofun
  | store other text now => exact fun he => h (Option.some.inj he)
  | clear => nofun

namespace Agrees

theorem new (limit lifetime : Nat) : Agrees { limit, lifetime } [] where
  size_le := Nat.zero_le _
  distinct := List.nodup_nil
  latest := nofun
  ordered := .nil
  kept later earlier locator text time h := by
    cases later <;> cases h

theorem lookup (h : Agrees cache history) (locator : String) (now : Nat) :
    Agrees (cache.get locator now).2 (.lookup locator now :: history) := by
  obtain he | ⟨entry, hfind, hold, he⟩ := cache.get_cases locator now
  · rw [he]
    refine ⟨h.size_le, h.distinct, fun other entry hother => ?_, h.ordered, ?_⟩
    · exact (h.latest other entry hother).cons nofun nofun
    intro later earlier other text time hsplit hspares hfew
    obtain ⟨-, hstore⟩ | ⟨rest, rfl, hrest⟩ := cons_eq_append hsplit
    · cases hstore
    · exact h.kept rest earlier other text time hrest
        (fun use hmem => hspares use (List.mem_cons_of_mem _ hmem)) hfew
  · rw [he]
    have hsublist := OrderedMap.erase_sublist cache.entries locator
    refine ⟨Nat.le_trans hsublist.length_le h.size_le, h.distinct.erase locator, ?_,
      h.ordered.sublist hsublist, ?_⟩
    · intro other entry hother
      rw [OrderedMap.find?_erase h.distinct] at hother
      split at hother
      · cases hother
      · exact (h.latest other entry hother).cons nofun nofun
    · intro later earlier other text time hsplit hspares hfew
      obtain ⟨-, hstore⟩ | ⟨rest, rfl, hrest⟩ := cons_eq_append hsplit
      · cases hstore
      rw [List.forall_mem_cons] at hspares
      have hkept := h.kept rest earlier other text time hrest hspares.2 hfew
      rw [OrderedMap.find?_erase h.distinct, if_neg]
      · exact hkept
      -- What the lookup removed was too old, and this template is not.
      · rintro rfl
        rw [hkept] at hfind
        cases hfind
        exact Nat.not_lt.2 hold (hspares.1 rfl)

/-- Behind a template stand only templates that were stored after it. -/
theorem length_lt (h : Agrees cache history) {before behind : OrderedMap String CachedTemplate}
    (he : OrderedMap.erase cache.entries other = before ++ (locator, entry) :: behind) :
    behind.length < (other :: storedSince locator history).toFinset.card := by
  have hdistinct := h.distinct.erase other
  have hordered := h.ordered.sublist (OrderedMap.erase_sublist cache.entries other)
  rw [he] at hdistinct hordered
  have hsince := (List.pairwise_cons.1 (List.pairwise_append.1 hordered).2.1).1
  have hgone : other ∉ (before ++ (locator, entry) :: behind).map Prod.fst := by
    rw [← he, ← OrderedMap.find?_eq_none_iff, OrderedMap.find?_erase h.distinct, if_pos rfl]
  have hnodup : (other :: behind.map Prod.fst).Nodup := by
    rw [OrderedMap.Distinct, List.map_append, List.map_cons, List.nodup_append] at hdistinct
    refine List.nodup_cons.2 ⟨fun hmem => hgone ?_, (List.nodup_cons.1 hdistinct.2.1).2⟩
    rw [List.map_append, List.map_cons]
    exact List.mem_append_right _ (List.mem_cons_of_mem _ hmem)
  have hsubset : (other :: behind.map Prod.fst).toFinset ⊆
      (other :: storedSince locator history).toFinset := by
    intro key hkey
    rw [List.mem_toFinset, List.mem_cons] at hkey ⊢
    refine hkey.imp_right fun hmem => ?_
    obtain ⟨newer, hnewer, rfl⟩ := List.mem_map.1 hmem
    exact hsince newer hnewer
  calc behind.length < (other :: behind.map Prod.fst).length := by
        rw [List.length_cons, List.length_map]
        exact Nat.lt_succ_self _
    _ = (other :: behind.map Prod.fst).toFinset.card :=
        (List.toFinset_card_of_nodup hnodup).symm
    _ ≤ _ := Finset.card_le_card hsubset

/-- Of the templates that a new one may displace, the last ones stay. -/
theorem mem_spared_of_card_lt (h : Agrees cache history)
    (hfind : OrderedMap.find? cache.entries locator = some entry) (hne : other ≠ locator)
    (hfew : (other :: storedSince locator history).toFinset.card < cache.limit) :
    (locator, entry) ∈ cache.spared other := by
  have hmem : (locator, entry) ∈ OrderedMap.erase cache.entries other := by
    rw [← (h.distinct.erase other).find?_eq_some_iff, OrderedMap.find?_erase h.distinct,
      if_neg hne, hfind]
  obtain ⟨before, behind, he⟩ := List.append_of_mem hmem
  have hlt := h.length_lt he
  have hdrop : (before ++ (locator, entry) :: behind).length + 1 - cache.limit ≤ before.length := by
    rw [List.length_append, List.length_cons]
    omega
  change (locator, entry) ∈ (OrderedMap.erase cache.entries other).drop _
  rw [he, List.drop_append_of_le_length hdrop]
  exact List.mem_append_right _ List.mem_cons_self

/-- If nothing may be held, then nothing is. -/
theorem store_of_limit_eq_zero (h : Agrees cache history) (hlimit : cache.limit = 0)
    (locator text : String) (now : Nat) :
    Agrees (cache.insert locator text now) (.store locator text now :: history) := by
  have hempty : cache.entries = [] :=
    List.eq_nil_of_length_eq_zero (Nat.le_zero.1 (hlimit ▸ h.size_le))
  rw [insert, if_pos hlimit]
  refine ⟨h.size_le, h.distinct, ?_, ?_, fun _ _ _ _ _ _ _ hfew => ?_⟩
  · rw [hempty]
    nofun
  · rw [hempty]
    exact .nil
  · exact absurd (hlimit ▸ hfew) (Nat.not_lt_zero _)

theorem latest_store (h : Agrees cache history)
    (hmem : (other, entry) ∈ cache.spared locator ++ [(locator, ⟨text, now⟩)]) :
    IsLatest (.store locator text now :: history) other entry := by
  rw [List.mem_append, List.mem_singleton] at hmem
  rcases hmem with hmem | hmem
  · obtain ⟨hne, hmem⟩ := mem_spared h.distinct hmem
    have hlatest := h.latest other entry (h.distinct.find?_eq_some_iff.2 hmem)
    exact hlatest.cons nofun fun he => hne (Option.some.inj he).symm
  · cases hmem
    exact isLatest_store history locator text now

theorem ordered_store (h : Agrees cache history) (locator text : String) (now : Nat) :
    List.Pairwise (fun older newer : String × CachedTemplate =>
        newer.1 ∈ storedSince older.1 (.store locator text now :: history))
      (cache.spared locator ++ [(locator, ⟨text, now⟩)]) := by
  have hspared := h.ordered.sublist
    ((cache.spared_sublist locator).trans (OrderedMap.erase_sublist cache.entries locator))
  have hlater : ∀ older ∈ cache.spared locator,
      storedSince older.1 (.store locator text now :: history) =
        locator :: storedSince older.1 history := by
    intro older hmem
    rw [storedSince, if_neg (Ne.symm (mem_spared h.distinct hmem).1)]
  rw [List.pairwise_append]
  refine ⟨hspared.imp_of_mem fun {older newer} ha _ hnewer => ?_, List.pairwise_singleton _ _,
    fun older ha newer hb => ?_⟩
  · rw [hlater older ha]
    exact List.mem_cons_of_mem _ hnewer
  · rw [hlater older ha, List.mem_singleton.1 hb]
    exact List.mem_cons_self

/-- A template stays as long as few others are stored, whatever is stored now. -/
theorem mem_of_store (h : Agrees cache history) {later earlier : List Use} {text' : String}
    (hsplit : .store locator text now :: history = later ++ .store other text' time :: earlier)
    (hspares : ∀ use ∈ later, use.Spares other time cache.lifetime)
    (hfew : (later.filterMap Use.stored?).toFinset.card < cache.limit) :
    (other, ⟨text', time⟩) ∈ cache.spared locator ++ [(locator, ⟨text, now⟩)] := by
  rw [List.mem_append]
  obtain ⟨-, hstore⟩ | ⟨rest, rfl, hrest⟩ := cons_eq_append hsplit
  · cases hstore
    exact .inr (List.mem_singleton_self _)
  · rw [List.forall_mem_cons] at hspares
    have hcount : (rest.filterMap Use.stored?).toFinset.card ≤
        ((Use.store locator text now :: rest).filterMap Use.stored?).toFinset.card := by
      refine Finset.card_le_card fun key hkey => ?_
      rw [List.mem_toFinset] at hkey ⊢
      exact List.mem_cons_of_mem _ hkey
    have hkept := h.kept rest earlier other text' time hrest hspares.2
      (Nat.lt_of_le_of_lt hcount hfew)
    refine .inl (h.mem_spared_of_card_lt hkept hspares.1 ?_)
    rw [hrest, storedSince_append fun use hmem => (hspares.2 use hmem).stored?_ne]
    exact hfew

theorem store (h : Agrees cache history) (locator text : String) (now : Nat) :
    Agrees (cache.insert locator text now) (.store locator text now :: history) := by
  by_cases hlimit : cache.limit = 0
  · exact h.store_of_limit_eq_zero hlimit locator text now
  have hentries := entries_insert hlimit locator text now
  have hdistinct : OrderedMap.Distinct (cache.insert locator text now).entries :=
    distinct_insert h.distinct hlimit
  have hsame : (cache.insert locator text now).limit = cache.limit ∧
      (cache.insert locator text now).lifetime = cache.lifetime := by
    rw [insert, if_neg hlimit]
    exact ⟨rfl, rfl⟩
  refine ⟨?_, hdistinct, fun other entry hfind => ?_, ?_, ?_⟩
  · rw [size, hentries, hsame.1, List.length_append, List.length_singleton, spared,
      List.length_drop]
    omega
  · exact h.latest_store (hentries ▸ OrderedMap.mem_of_find? hfind)
  · rw [hentries]
    exact h.ordered_store locator text now
  · intro later earlier other text' time hsplit hspares hfew
    rw [hdistinct.find?_eq_some_iff, hentries]
    rw [hsame.1] at hfew
    rw [hsame.2] at hspares
    exact h.mem_of_store hsplit hspares hfew

theorem clear (cache : TemplateCache) (history : List Use) :
    Agrees cache.clear (.clear :: history) where
  size_le := Nat.zero_le _
  distinct := List.nodup_nil
  latest := nofun
  ordered := .nil
  kept later earlier locator text time hsplit hspares hfew := by
    obtain ⟨-, hstore⟩ | ⟨rest, rfl, hrest⟩ := cons_eq_append hsplit
    · cases hstore
    · exact (hspares _ List.mem_cons_self).elim

theorem after (h : Agrees cache history) (use : Use) :
    Agrees (cache.after use) (use :: history) := by
  cases use with
  | lookup locator now => exact h.lookup locator now
  | store locator text now => exact h.store locator text now
  | clear => exact .clear cache history

end Agrees

/-! ## What a call does -/

/-- A fetch is a hit, or asks the source, which answers or fails. -/
theorem getOrFetch_cases (cache : TemplateCache) (locator : String) (now : Nat)
    (source : String → Except FetchError String) :
    let outcome := cache.perform (.getOrFetch locator now source)
    let found := cache.get locator now
    (∃ text, found.1 = some text ∧ outcome = ⟨some (.ok text), [], found.2⟩) ∨
      (∃ text, found.1 = none ∧
        outcome = ⟨some (.ok text), [locator], found.2.insert locator text now⟩) ∨
      ∃ e, found.1 = none ∧ outcome = ⟨some (.error e), [locator], found.2⟩ := by
  intro outcome found
  have houtcome : outcome = cache.perform (.getOrFetch locator now source) := rfl
  rw [perform, getOrFetch] at houtcome
  cases hfound : cache.get locator now with
  | mk text? after =>
    have he : found = (text?, after) := hfound
    rw [hfound] at houtcome
    rw [he, houtcome]
    cases text? with
    | some text => exact .inl ⟨text, rfl, rfl⟩
    | none =>
      unfold noting
      cases source locator with
      | ok text => exact .inr (.inl ⟨text, rfl, rfl⟩)
      | error e => exact .inr (.inr ⟨e, rfl, rfl⟩)

/-- A call does to the cache what it is noted for. -/
theorem cache_perform (cache : TemplateCache) (call : Call) :
    (cache.perform call).cache =
      (call.uses (cache.perform call)).foldr (fun use cache => cache.after use) cache := by
  cases call with
  | get locator now => rfl
  | insert locator text now => rfl
  | clear => rfl
  | getOrFetch locator now source =>
    obtain ⟨text, -, h⟩ | ⟨text, -, h⟩ | ⟨e, -, h⟩ := cache.getOrFetch_cases locator now source
    · rw [h]
      rfl
    · rw [h]
      rfl
    · rw [h]
      rfl

/-- A hit is found by a lookup. -/
theorem get_of_hit {call : Call} (hcall : call.lookup? = some (locator, now))
    (hanswer : (cache.perform call).answer? = some (.ok text))
    (hasked : (cache.perform call).asked = []) : (cache.get locator now).1 = some text := by
  cases call with
  | insert other text now => cases hcall
  | clear => cases hcall
  | get other time =>
    cases hcall
    obtain ⟨found, hfound, he⟩ := Option.map_eq_some_iff.1 hanswer
    cases he
    exact hfound
  | getOrFetch other time source =>
    cases hcall
    obtain ⟨found, hfound, h⟩ | ⟨found, -, h⟩ | ⟨e, -, h⟩ :=
      cache.getOrFetch_cases locator now source
    · rw [h] at hanswer
      cases hanswer
      exact hfound
    · rw [h] at hasked
      cases hasked
    · rw [h] at hasked
      cases hasked

/-- The source is asked exactly for what a lookup does not find. -/
theorem asked_getOrFetch (cache : TemplateCache) (locator : String) (now : Nat)
    (source : String → Except FetchError String) :
    (cache.perform (.getOrFetch locator now source)).asked =
      if (cache.get locator now).1.isSome then [] else [locator] := by
  obtain ⟨text, hfound, h⟩ | ⟨text, hfound, h⟩ | ⟨e, hfound, h⟩ :=
    cache.getOrFetch_cases locator now source
  · rw [h, hfound]
    rfl
  · rw [h, hfound]
    rfl
  · rw [h, hfound]
    rfl

/-- A failed fetch does what the lookup does. -/
theorem cache_of_failure {source : String → Except FetchError String} {e : FetchError}
    (h : (cache.perform (.getOrFetch locator now source)).answer? = some (.error e)) :
    (cache.perform (.getOrFetch locator now source)).cache = (cache.get locator now).2 := by
  obtain ⟨text, -, he⟩ | ⟨text, -, he⟩ | ⟨e', -, he⟩ := cache.getOrFetch_cases locator now source
  · rw [he] at h
    cases h
  · rw [he] at h
    cases h
  · rw [he]

/-! ## Whole runs -/

theorem Agrees.foldr (h : Agrees cache history) (uses : List Use) :
    Agrees (uses.foldr (fun use cache => cache.after use) cache) (uses ++ history) := by
  induction uses with
  | nil => exact h
  | cons use uses ih => exact ih.after use

theorem settings_foldr (cache : TemplateCache) (uses : List Use) :
    let cache' := uses.foldr (fun use cache => cache.after use) cache
    cache'.limit = cache.limit ∧ cache'.lifetime = cache.lifetime := by
  induction uses with
  | nil => exact ⟨rfl, rfl⟩
  | cons use uses ih => exact ⟨(limit_after _ use).trans ih.1, (lifetime_after _ use).trans ih.2⟩

/-- The record is of a cache with these settings, and agrees with it. -/
structure Record.Sound (r : Record) (limit lifetime : Nat) : Prop where
  limit : r.cache.limit = limit
  lifetime : r.cache.lifetime = lifetime
  agrees : Agrees r.cache r.history

theorem Record.Sound.call {r : Record} {limit lifetime : Nat} (h : r.Sound limit lifetime)
    (c : Call) : (r.call c).Sound limit lifetime := by
  have hsettings := settings_foldr r.cache (c.uses (r.cache.perform c))
  have hagrees := h.agrees.foldr (c.uses (r.cache.perform c))
  rw [← cache_perform] at hsettings hagrees
  exact ⟨hsettings.1.trans h.limit, hsettings.2.trans h.lifetime, hagrees⟩

theorem sound_run (limit lifetime : Nat) (calls : List Call) :
    (run limit lifetime calls).Sound limit lifetime := by
  have hfold (r : Record) (hr : r.Sound limit lifetime) :
      (calls.foldl Record.call r).Sound limit lifetime := by
    induction calls generalizing r with
    | nil => exact hr
    | cons c calls ih => exact ih (r.call c) (hr.call c)
  exact hfold _ ⟨rfl, rfl, .new limit lifetime⟩

/-- After any calls, a cache holds no more than it may. The next call finds only what was stored
last under its locator, not too long ago and not before the cache was cleared. What was stored and
found in time ever since is held until as many other locators as the cache may hold were stored.
The source is asked for exactly what is not found, and if it fails, nothing is lost but what was too
old. -/
theorem run_agrees (limit lifetime : Nat) (calls : List Call) :
    let r := run limit lifetime calls
    r.cache.size ≤ limit ∧
    OrderedMap.Distinct r.cache.entries ∧
    (∀ call locator now text, call.lookup? = some (locator, now) →
      (r.cache.perform call).answer? = some (.ok text) → (r.cache.perform call).asked = [] →
      ∃ time, IsLatest r.history locator ⟨text, time⟩ ∧ now - time < lifetime) ∧
    (∀ later earlier locator text time,
      r.history = later ++ .store locator text time :: earlier →
      (∀ use ∈ later, use.Spares locator time lifetime) →
      (later.filterMap Use.stored?).toFinset.card < limit →
      OrderedMap.find? r.cache.entries locator = some ⟨text, time⟩) ∧
    ∀ locator now source,
      let outcome := r.cache.perform (.getOrFetch locator now source)
      outcome.asked = (if (r.cache.get locator now).1.isSome then [] else [locator]) ∧
      ∀ e, outcome.answer? = some (.error e) →
        outcome.cache = r.cache ∨
          ∃ entry, OrderedMap.find? r.cache.entries locator = some entry ∧
            lifetime ≤ now - entry.storedAt ∧
            outcome.cache =
              { r.cache with entries := OrderedMap.erase r.cache.entries locator } := by
  intro r
  obtain ⟨hlimit, hlifetime, hagrees⟩ := sound_run limit lifetime calls
  refine ⟨hlimit ▸ hagrees.size_le, hagrees.distinct, ?_, ?_, fun locator now source => ?_⟩
  · intro call locator now text hcall hanswer hasked
    obtain ⟨time, hfind, hnew⟩ := exists_of_get_eq_some (get_of_hit hcall hanswer hasked)
    exact ⟨time, hagrees.latest locator _ hfind, hlifetime ▸ hnew⟩
  · intro later earlier locator text time hsplit hspares hfew
    exact hagrees.kept later earlier locator text time hsplit (hlifetime.symm ▸ hspares)
      (hlimit.symm ▸ hfew)
  · refine ⟨asked_getOrFetch r.cache locator now source, fun e he => ?_⟩
    have hcases := r.cache.get_cases locator now
    rw [← cache_of_failure he] at hcases
    exact hlifetime ▸ hcases

/-- Three templates are stored in a cache for two. The second one is still held, and a lookup
within its time finds it. -/
theorem run_agrees_of_full_cache :
    let r := run 2 60 [.insert "a" "A" 0, .insert "b" "B" 5, .get "a" 7, .insert "c" "C" 9]
    r.cache.size ≤ 2 ∧ OrderedMap.find? r.cache.entries "b" = some ⟨"B", 5⟩ ∧
      (∃ time, IsLatest r.history "b" ⟨"B", time⟩ ∧ 64 - time < 60) ∧
      (r.cache.perform (.getOrFetch "a" 10 fun _ => .error (.notFound "a"))).asked = ["a"] := by
  have h := run_agrees 2 60
    [.insert "a" "A" 0, .insert "b" "B" 5, .get "a" 7, .insert "c" "C" 9]
  obtain ⟨hsize, -, hhit, hkept, hfetch⟩ := h
  refine ⟨hsize, ?_, hhit (.get "b" 64) "b" 64 "B" rfl (by decide +kernel) (by decide +kernel), ?_⟩
  · exact hkept [.store "c" "C" 9, .lookup "a" 7] [.store "a" "A" 0] "b" "B" 5 (by decide +kernel)
      (by decide +kernel) (by decide +kernel)
  · exact (hfetch "a" 10 fun _ => .error (.notFound "a")).1.trans (by decide +kernel)

end TemplateCache

end LiveMarkup
