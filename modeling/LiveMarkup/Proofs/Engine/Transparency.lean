import LiveMarkup.Proofs.Engine.Pairing
import LiveMarkup.Proofs.Engine.Writing
import LiveMarkup.Proofs.State.Overwriting

/-!
# A middleware that changes nothing

A merge behind middleware writes all fields of the merged object, not only the entries. The fields
that are no entries have their old values, so that writing them does nothing, unless a listener has
changed them in the meantime. As long as that does not happen (`Steady`), middleware that leaves
every state as it is makes no difference (`Run.merge_through_identity`). Otherwise the old value is
put back (`Run.identity_undoes_listener`).
-/

namespace LiveMarkup

variable {σ α : Type}

/-- The middleware that leaves every state as it is. -/
def Middleware.identity : Middleware σ := ⟨fun _ _ => .done, fun next _ => .ok next⟩

/-! ## Fields that are not written -/

/-- A value has all fields of an object that are not among some entries, or values that count as the
same. -/
def spares (old entries : Fields) (v : Value) : Bool :=
  old.all fun field => entries.contains field.1 ||
    ((v.fields?.bind fun fields => fields.find? field.1).any fun now => now.sameInState field.2)

/-- While entries are merged into the state in a store, no change concerns another field of it. This
is said of all merges that begin after the history had a length. -/
def Steady (store : StoreId) (base : Nat) (history : List Moment) : Prop :=
  ∀ old entries since past,
    .merged (.root store) old entries past.length :: (since ++ past) <:+ history →
    base ≤ past.length →
    ∀ v, .changed store v ∈ since → spares old.1 entries.1 v.1 = true

theorem Steady.of_suffix {store : StoreId} {base : Nat} {earlier history : List Moment}
    (h : Steady store base history) (hs : earlier <:+ history) : Steady store base earlier :=
  fun old entries since past hm hbase => h old entries since past (hm.trans hs) hbase

/-- Nothing is put in place of a value that was spared. -/
theorem put?_eq_none {old entries : Fields} {root v : OrderedValue} {key : String}
    (hold : old.find? key = some v.1) (hkey : entries.contains key = false)
    (hroot : root.1 = .object old ∨ spares old entries root.1 = true) :
    root.put? [] key v = none := by
  have hsame : ∃ fields now, root.1.fields? = some fields ∧ fields.find? key = some now ∧
      now.sameInState v.1 = true := by
    rcases hroot with hroot | hspares
    · exact ⟨old, v.1, by rw [hroot, Value.fields?], hold, v.1.sameInState_self⟩
    · have hfield := List.all_eq_true.1 hspares (key, v.1) (Fields.mem_of_find? hold)
      rw [hkey, Bool.false_or, Option.any_eq_true] at hfield
      obtain ⟨now, hnow, hsame⟩ := hfield
      obtain ⟨fields, hfields, hfind⟩ := Option.bind_eq_some_iff.1 hnow
      exact ⟨fields, now, hfields, hfind, hsame⟩
  obtain ⟨fields, now, hfields, hfind, hsame⟩ := hsame
  refine Option.map_eq_none_iff.1 (OrderedValue.map_val_put?.trans ?_)
  rw [Value.put?, Value.objectAt?, Value.resolve?, Option.bind_some, hfields]
  simp only [hfind, Option.any_some, hsame, if_true]

/-! ## What runs make of a store -/

namespace World

variable {w w' w'' : World σ} {store : StoreId}

/-- Stores keep their middleware, and their states change only as the history says. -/
def Grows (w w' : World σ) : Prop :=
  ∃ since, w'.history = since ++ w.history ∧
    ∀ (i : StoreId) (st : Store σ), w.stores[i]? = some st →
      ∃ st', w'.stores[i]? = some st' ∧ st'.middleware = st.middleware ∧
        (st'.value = st.value ∨ .changed i st'.value ∈ since)

theorem Grows.suffix (h : w.Grows w') : w.history <:+ w'.history := by
  obtain ⟨since, hs, -⟩ := h
  exact hs ▸ List.suffix_append _ _

theorem Grows.trans (h : w.Grows w') (h' : w'.Grows w'') : w.Grows w'' := by
  obtain ⟨since, hs, hstores⟩ := h
  obtain ⟨since', hs', hstores'⟩ := h'
  refine ⟨since' ++ since, by rw [hs', hs, List.append_assoc], fun i st hst => ?_⟩
  obtain ⟨st₁, hst₁, hmiddleware₁, hvalue₁⟩ := hstores i st hst
  obtain ⟨st₂, hst₂, hmiddleware₂, hvalue₂⟩ := hstores' i st₁ hst₁
  refine ⟨st₂, hst₂, hmiddleware₂.trans hmiddleware₁, ?_⟩
  rcases hvalue₂ with hsame₂ | hchanged₂
  · rcases hvalue₁ with hsame₁ | hchanged₁
    · exact .inl (hsame₂.trans hsame₁)
    · exact .inr (List.mem_append_right _ (hsame₂ ▸ hchanged₁))
  · exact .inr (List.mem_append_left _ hchanged₂)

theorem Grows.of_stores (since : List Moment) (hstores : w'.stores = w.stores)
    (hs : w'.history = since ++ w.history) : w.Grows w' :=
  ⟨since, hs, fun _ st hst => ⟨st, hstores ▸ hst, rfl, .inl rfl⟩⟩

theorem Grows.of_idles (h : w.Idles w') : w.Grows w' := by
  obtain ⟨since, hs, -⟩ := h.history
  exact .of_stores since h.stores hs

theorem grows_record (w : World σ) (m : Moment) : w.Grows (w.record m) :=
  .of_stores [m] rfl rfl

theorem grows_modifyStore (w : World σ) (store : StoreId) {f : Store σ → Store σ} {m : Moment}
    (hm : ∀ st, (f st).middleware = st.middleware)
    (hv : ∀ st, (f st).value = st.value ∨ .changed store (f st).value = m) :
    w.Grows ((w.modifyStore store f).record m) := by
  refine ⟨[m], rfl, fun i st hst => ?_⟩
  change ∃ st', (w.stores.modify store f)[i]? = some st' ∧ _
  rw [List.getElem?_modify, hst]
  by_cases he : store = i
  · subst he
    refine ⟨f st, by simp, hm st, (hv st).imp id fun hchanged => ?_⟩
    exact hchanged ▸ List.mem_singleton_self m
  · exact ⟨st, by simp [he], rfl, .inl rfl⟩

theorem grows_enlist {st : Store σ} (callback : Callback σ) (_ : w.stores[store]? = some st) :
    w.Grows ((w.modifyStore store fun s => s.enlist callback).record
      (.subscribed store st.nextId)) :=
  w.grows_modifyStore store (fun _ => rfl) fun _ => .inl rfl

theorem grows_dismiss {id : SubscriptionId}
    (_ : (w.stores[store]?).any (fun s => s.hasListener id) = true) :
    w.Grows ((w.modifyStore store fun s => s.dismiss id).record (.unsubscribed store id)) :=
  w.grows_modifyStore store (fun _ => rfl) fun _ => .inl rfl

theorem grows_addStore (w : World σ) (state : State) (sink : Diagnostic → σ → σ) :
    w.Grows (w.addStore state sink).1 :=
  ⟨[], rfl, fun _ st hst =>
    ⟨st, (List.getElem?_append_left (List.getElem?_eq_some_iff.1 hst).1).trans hst, rfl, .inl rfl⟩⟩

theorem state?_of_snapshot {key : String} {v : Value}
    (h : (w.snapshot (.root store)).find? key = some v) :
    ∃ root, w.state? store = some root ∧ root.1 = .object (w.snapshot (.root store)) := by
  rw [snapshot, value?] at h ⊢
  change ((((w.state? store).bind fun root => some root.1).bind Value.fields?).getD []).find? key =
    _ at h
  change ∃ root, w.state? store = some root ∧
    root.1 = .object ((((w.state? store).bind fun root => some root.1).bind Value.fields?).getD [])
  cases hroot : w.state? store with
  | none =>
    rw [hroot] at h
    cases h
  | some root =>
    rw [hroot] at h
    obtain ⟨v, hv⟩ := root
    refine ⟨_, rfl, ?_⟩
    cases v with
    | object fields => rfl
    | _ => cases h

/-- Nothing is put in place of a field that is no entry, if all changes have spared such fields. -/
theorem Grows.put?_eq_none {old entries : Fields} {key : String} {v : OrderedValue}
    (h : w.Grows w')
    (hold : w.snapshot (.root store) = old)
    (hspares : ∀ since, w'.history = since ++ w.history →
      ∀ v, .changed store v ∈ since → spares old entries v.1 = true)
    (hfind : old.find? key = some v.1) (hkey : entries.contains key = false) :
    ((w'.state? store).bind fun root => root.put? [] key v) = none := by
  subst hold
  obtain ⟨root, hroot, hvalue⟩ := state?_of_snapshot hfind
  obtain ⟨st, hst, rfl⟩ := Option.map_eq_some_iff.1 hroot
  obtain ⟨since, hs, hstores⟩ := h
  obtain ⟨st', hst', -, hvalue'⟩ := hstores store st hst
  rw [state?, hst', Option.map_some, Option.bind_some]
  refine LiveMarkup.put?_eq_none hfind hkey ?_
  exact hvalue'.imp (fun hsame => (congrArg Subtype.val hsame).trans hvalue) (hspares since hs _)

end World

/-- A run in a world in which merges through the root of a store go through the middleware that
leaves every state as it is. -/
def transparency (store : StoreId) (base : Nat) : Pairing σ where
  layers i middleware := if i = store then middleware ++ [.identity] else middleware
  Leads := World.Grows
  Admits w := base ≤ w.history.length ∧
    ∃ st, w.stores[store]? = some st ∧ st.middleware = []
  Trusts w := Steady store base w.history
  trans := .trans
  idles := .of_idles
  admits h hw := by
    obtain ⟨since, hs, hstores⟩ := h
    obtain ⟨hbase, st, hst, hnone⟩ := hw
    obtain ⟨st', hst', hmiddleware, -⟩ := hstores store st hst
    refine ⟨?_, st', hst', hmiddleware.trans hnone⟩
    rw [hs, List.length_append]
    exact Nat.le_add_left_of_le hbase
  trusts h hw := hw.of_suffix h.suffix
  enlists := World.grows_enlist
  dismisses := World.grows_dismiss
  addsStore := World.grows_addStore
  layers_new {w} hw := by
    obtain ⟨-, st, hst, -⟩ := hw
    rw [if_neg (Nat.ne_of_gt (List.getElem?_eq_some_iff.1 hst).1)]

theorem World.relayer_transparency (w : World σ) (store : StoreId) (base : Nat) :
    w.relayer (transparency store base).layers = w.modifyStore store fun s =>
      { s with middleware := s.middleware ++ [.identity] } := by
  rw [World.relayer, World.modifyStore]
  congr 1
  refine List.ext_getElem? fun i => ?_
  rw [List.getElem?_mapIdx, List.getElem?_modify]
  cases w.stores[i]? with
  | none => rfl
  | some st =>
    by_cases he : i = store
    · simp [transparency, Store.withMiddleware, he]
    · simp [transparency, Store.withMiddleware, he, Ne.symm he]

namespace Run

variable {call call' : Callback σ → Run σ Unit} {store : StoreId} {base : Nat}
  {w w' : World σ}

section

variable {k : Pairing σ} (hgrows : ∀ {w w' : World σ}, w.Grows w' → k.Leads w w')
  (hcall : ∀ c, k.Pairs (call c) (call' c))

include hgrows hcall

theorem pairs_callAll (target : StoreId) (round : Nat) (ls : List (Listener σ)) :
    k.Pairs (callAll call target round ls) (callAll call' target round ls) := by
  induction ls with
  | nil => exact .of_pure ()
  | cons l rest ih =>
    refine .bind (fun w _ => .of_modify (hgrows (w.grows_record _)) rfl) fun _ => ?_
    exact (hcall l.callback).bind fun _ => ih

/-- If nothing more is said of a run than that stores grow, writes are paired. -/
theorem pairs_write_of_grows (target : StoreId) (change : OrderedValue → Option OrderedValue) :
    k.Pairs (write call target change) (write call' target change) := by
  have hnotify : k.Pairs (notify call target) (notify call' target) := by
    unfold notify
    refine .of_get (fun w => ?_) fun w hw => ?_
    · simp only [World.listeners_relayer]
      rfl
    refine .bind hw (pairs_callAll hgrows hcall target _ _ w hw) fun _ => ?_
    exact fun w _ => .of_modify (hgrows (w.grows_record _)) rfl
  intro w hw
  unfold write
  refine .of_get ?_
  rw [World.state?_relayer]
  split
  · exact .of_pure false
  · next v _ =>
    refine .bind hw (.of_set (hgrows ?_) ?_) fun _ => hnotify.bind fun _ => .of_pure true
    · exact w.grows_modifyStore target (fun _ => rfl) fun _ => .inr rfl
    · have hvalue := w.relayer_modifyStore k.layers target (fun s => { s with value := v })
        (fun _ _ => rfl) fun _ => rfl
      exact congrArg (World.record · (.changed target v)) hvalue.symm

end

theorem transparency_write (hcall : ∀ c, (transparency store base).Pairs (call c) (call' c))
    (target : StoreId) (change : OrderedValue → Option OrderedValue) :
    (transparency store base).Pairs (write call target change) (write call' target change) :=
  pairs_write_of_grows (fun h => h) hcall target change

/-- Where fields that are no entries are spared, writing them all is writing the entries. -/
theorem setAll_relayer (hcall : ∀ c, (transparency store base).Pairs (call c) (call' c))
    {old entries : Fields} (hold : w.snapshot (.root store) = old)
    (hspares : ∀ since, w'.history = since ++ w.history →
      ∀ v, .changed store v ∈ since → spares old entries v.1 = true)
    (htrusts : Steady store base w'.history) {fields : List (String × OrderedValue)}
    (hfields : ∀ field ∈ fields, entries.contains field.1 = false →
      old.find? field.1 = some field.2.1) {w₁ : World σ} (hw₁ : (transparency store base).Admits w₁)
    (hgrows : w.Grows w₁) {count : Nat}
    (h : setAll call (.root store) (fields.filter fun field => entries.contains field.1) w₁ =
      some (count, w')) :
    setAll call' (.root store) fields (w₁.relayer (transparency store base).layers) =
      some (count, w'.relayer (transparency store base).layers) := by
  have hwrite := transparency_write hcall
  induction fields generalizing w₁ count with
  | nil =>
    cases h
    rfl
  | cons field rest ih =>
    obtain ⟨key, v⟩ := field
    rw [List.forall_mem_cons] at hfields
    cases hkey : entries.contains key with
    | true =>
      rw [List.filter_cons, if_pos hkey] at h
      obtain ⟨changed, w₂, hset, h⟩ := bind_eq_some_iff.1 h
      obtain ⟨more, w₃, hmore, h⟩ := bind_eq_some_iff.1 h
      obtain ⟨rfl, rfl⟩ := Prod.mk.inj (Option.some.inj h)
      obtain ⟨hgrows₂, hset'⟩ := hwrite store _ w₁ hw₁ changed w₂ hset
      have hw₂ := (transparency store base).admits hgrows₂ hw₁
      have hgrows₃ := (Pairing.pairs_setAll hwrite (.root store) _ w₂ hw₂ more w₃ hmore).1
      have hset' := hset' (htrusts.of_suffix (World.Grows.suffix hgrows₃))
      have hmore' := ih hfields.2 hw₂ (hgrows.trans hgrows₂) hmore
      exact bind_eq_some_iff.2 ⟨changed, _, hset', bind_eq_some_iff.2 ⟨more, _, hmore', rfl⟩⟩
    | false =>
      rw [List.filter_cons, if_neg (by rw [hkey]; exact Bool.false_ne_true)] at h
      have hmore' := ih hfields.2 hw₁ hgrows h
      have hspares' (since : List Moment) (hs : w₁.history = since ++ w.history)
          (v : OrderedValue) (hv : .changed store v ∈ since) : spares old entries v.1 = true := by
        obtain ⟨since', hs', -⟩ := (Pairing.pairs_setAll hwrite (.root store) _ w₁ hw₁ count w' h).1
        refine hspares (since' ++ since) ?_ v (List.mem_append_right _ hv)
        rw [hs', hs, List.append_assoc]
      have hset' : Run.set call' (.root store) key v
          (w₁.relayer (transparency store base).layers) =
          some (false, w₁.relayer (transparency store base).layers) := by
        refine write_eq_of_none ?_
        rw [World.state?_relayer]
        exact hgrows.put?_eq_none hold hspares' (hfields.1 hkey) hkey
      exact bind_eq_some_iff.2 ⟨false, _, hset', bind_eq_some_iff.2 ⟨count, _, hmore', rfl⟩⟩

theorem middlewareOf_relayer_of_ne {h : Handle} (hne : h ≠ .root store) :
    middlewareOf (w.relayer (transparency store base).layers) h = middlewareOf w h := by
  obtain ⟨target, path⟩ := h
  cases path with
  | cons step rest => rfl
  | nil =>
    have htarget : target ≠ store := fun he => hne (congrArg Handle.root he)
    change (((w.relayer _).stores[target]?).map Store.middleware).getD [] =
      ((w.stores[target]?).map Store.middleware).getD []
    rw [World.getElem?_relayer]
    cases w.stores[target]? with
    | none => rfl
    | some st => exact if_neg htarget

theorem middlewareOf_root (hw : (transparency store base).Admits w) :
    middlewareOf w (.root store) = [] ∧
      middlewareOf (w.relayer (transparency store base).layers) (.root store) = [.identity] := by
  obtain ⟨-, st, hst, hnone⟩ := hw
  change ((w.stores[store]?).map Store.middleware).getD [] = [] ∧
    (((w.relayer _).stores[store]?).map Store.middleware).getD [] = _
  rw [World.getElem?_relayer, hst]
  refine ⟨hnone, ?_⟩
  change (transparency store base).layers store st.middleware = _
  rw [hnone]
  exact if_pos rfl

/-- Behind the middleware that leaves every state as it is, merging does the same. -/
theorem mergeThrough_relayer (hcall : ∀ c, (transparency store base).Pairs (call c) (call' c))
    (hdone : ∀ w, call' (.script .done) w = some ((), w)) {entries : State}
    (hw : (transparency store base).Admits w)
    (hspares : ∀ since, w'.history = since ++ w.history →
      ∀ v, .changed store v ∈ since → spares (w.snapshot (.root store)) entries.1 v.1 = true)
    (htrusts : Steady store base w'.history) {count : Nat}
    (h : setAll call (.root store) entries.entries w = some (count, w')) :
    mergeThrough call' (.root store) (w.stateAt (.root store)) entries [.identity]
        (w.relayer (transparency store base).layers) =
      some (count, w'.relayer (transparency store base).layers) := by
  generalize hstate : w.stateAt (.root store) = old
  have hsnapshot : w.snapshot (.root store) = old.1 := congrArg Subtype.val hstate
  rw [hsnapshot] at hspares
  have hold := old.2.inOrder
  have hentries := entries.2.inOrder
  have hfields : ∀ field ∈ (old.merge entries).entries, entries.1.contains field.1 = false →
      old.1.find? field.1 = some field.2.1 := by
    intro field hmem hkey
    have hfind := (hold.merge entries.1).find?_of_mem (State.mem_of_mem_entries hmem)
    rw [Fields.find?_merge hentries] at hfind
    rw [Fields.contains, Option.isSome_eq_false_iff, Option.isNone_iff_eq_none] at hkey
    rwa [hkey, Option.none_or] at hfind
  have hremoved : (old.1.keys.filter fun key => !(old.merge entries).1.contains key) = [] := by
    refine List.filter_eq_nil_iff.2 fun key hkey => ?_
    rw [← Fields.contains_eq_true_iff, Fields.contains] at hkey
    rw [Fields.contains, State.merge, Fields.find?_merge hentries, Option.isSome_or, hkey,
      Bool.or_true]
    exact Bool.false_ne_true
  have hmade : (old.merge entries).entries.filter (fun field => entries.1.contains field.1) =
      entries.entries := State.filter_entries (hold.filter_merge hentries)
  rw [← hmade] at h
  have hset := setAll_relayer hcall hsnapshot hspares htrusts hfields hw
    ((transparency store base).leads_refl w) h
  have hremove : removeAll call' (.root store)
      (old.1.keys.filter fun key => !(old.merge entries).1.contains key)
      (w.relayer (transparency store base).layers) =
      some (0, w.relayer (transparency store base).layers) := by
    rw [hremoved]
    rfl
  have happly : applyMiddleware call' store old 0 [.identity] (old.merge entries)
      (w.relayer (transparency store base).layers) =
      some (old.merge entries, w.relayer (transparency store base).layers) :=
    bind_eq_some_iff.2 ⟨(), _, hdone _, congrArg (fun made => some (made, _))
      (State.ofFields_val (old.merge entries))⟩
  refine bind_eq_some_iff.2 ⟨_, _, happly, bind_eq_some_iff.2 ⟨_, _, hremove, ?_⟩⟩
  refine bind_eq_some_iff.2 ⟨_, _, hset, ?_⟩
  rw [Nat.zero_add]
  rfl

theorem transparency_merge (hcall : ∀ c, (transparency store base).Pairs (call c) (call' c))
    (hdone : ∀ w, call' (.script .done) w = some ((), w)) (h : Handle) (entries : State) :
    (transparency store base).Pairs (merge call h entries) (merge call' h entries) := by
  have hwrite := transparency_write hcall
  intro w hw
  by_cases hroot : h = .root store
  · subst hroot
    obtain ⟨hplain, hlayered⟩ := middlewareOf_root hw
    intro count w'' hm
    obtain ⟨_, _, ⟨⟩, hm⟩ := bind_eq_some_iff.1 hm
    obtain ⟨changed, w', hset, hm⟩ := bind_eq_some_iff.1 hm
    obtain ⟨_, _, ⟨⟩, ⟨⟩⟩ := bind_eq_some_iff.1 hm
    rw [hplain] at hset
    have hgrows := (Pairing.pairs_setAll hwrite (.root store) _ w hw count w' hset).1
    refine ⟨World.Grows.trans hgrows (w'.grows_record _), fun htrusts => ?_⟩
    obtain ⟨since, hs, -⟩ := hgrows
    have hspares := htrusts (w.stateAt (.root store)) entries since w.history
      (hs ▸ List.suffix_rfl) hw.1
    have hthrough := mergeThrough_relayer hcall hdone hw (fun since' hs' => ?_)
      (htrusts.of_suffix (List.suffix_cons _ _)) hset
    · rw [← w.stateAt_relayer, ← hlayered] at hthrough
      refine bind_eq_some_iff.2 ⟨_, _, rfl, bind_eq_some_iff.2 ⟨_, _, hthrough,
        bind_eq_some_iff.2 ⟨(), _, rfl, ?_⟩⟩⟩
      rw [World.stateAt_relayer]
      rfl
    · obtain rfl := List.append_cancel_right (hs'.symm.trans hs)
      exact hspares
  · refine Pairing.pairsAt_merge hw ?_
    rw [middlewareOf_relayer_of_ne hroot]
    exact Pairing.pairs_mergeThrough hcall hwrite h _ entries _ w hw

theorem invoke_done [Html.Tokenizer] {depth : Nat} (hd : 0 < depth) (w : World σ) :
    invoke depth (.script .done) w = some ((), w) := by
  obtain ⟨depth, rfl⟩ := Nat.exists_eq_succ_of_ne_zero (Nat.ne_of_gt hd)
  rfl

/-- A call in a world without the middleware does the same with it, a call deeper. -/
theorem transparency_invoke [Html.Tokenizer] {depth depth' : Nat} (hd : depth < depth')
    (c : Callback σ) : (transparency store base).Pairs (invoke depth c) (invoke depth' c) := by
  induction depth generalizing depth' c with
  | zero => exact .of_failure
  | succ depth ih =>
    obtain ⟨depth', rfl⟩ := Nat.exists_eq_succ_of_ne_zero (Nat.ne_of_gt (Nat.zero_lt_of_lt hd))
    have hlt : depth < depth' := Nat.lt_of_succ_lt_succ hd
    have hcall (c : Callback σ) : (transparency store base).Pairs (invoke depth c)
      (invoke depth' c) := ih hlt c
    cases c with
    | script p =>
      exact Pairing.pairs_execute hcall (transparency_write hcall)
        (transparency_merge hcall (invoke_done (Nat.zero_lt_of_lt hlt))) p
    | refresh s => exact Pairing.pairs_onChange hcall s

/-- If the fields that are no entries are spared, a merge into a store without middleware does the
same if the middleware that leaves every state as it is has been added first: it makes the same
changes and calls, and ends in the same world, as if the middleware had been added afterwards. -/
theorem merge_through_identity [Html.Tokenizer] {depth depth' count : Nat} {st : Store σ}
    {entries : State} (hst : w.stores[store]? = some st) (hnone : st.middleware = [])
    (hplain : merge (invoke depth) (.root store) entries w = some (count, w'))
    (hsteady : Steady store w.history.length w'.history) (hd : depth < depth') :
    ∃ w'', (do
        addMiddleware store .identity
        merge (invoke depth') (.root store) entries) w = some (count, w'') ∧
      addMiddleware store .identity w' = some ((), w'') ∧
      w''.state? store = w'.state? store ∧ w''.history = w'.history := by
  have hmerge := transparency_merge (transparency_invoke hd)
    (invoke_done (Nat.zero_lt_of_lt hd)) (.root store) entries w
    ⟨Nat.le_refl _, st, hst, hnone⟩ count w' hplain
  refine ⟨w'.relayer (transparency store w.history.length).layers, ?_, ?_, w'.state?_relayer store,
    rfl⟩
  · refine bind_eq_some_iff.2 ⟨(), w.relayer (transparency store w.history.length).layers, ?_,
      hmerge.2 hsteady⟩
    rw [World.relayer_transparency]
    rfl
  · rw [World.relayer_transparency]
    rfl

/-- A listener that adds a field while the entries are merged. -/
theorem merge_through_identity_of_new_field :
    let w : World Unit := ((World.build {} (fun _ host => host) [] ()).addStore
      (.ofFields [("a", .bool false), ("z", .null)]) fun _ host => host).1.modifyStore 0 fun s =>
        s.enlist (.script (.set (.root 0) "b" (.bool true) fun _ => .done))
    ∃ st w' w'', w.stores[0]? = some st ∧ st.middleware = [] ∧
      merge (invoke 2) (.root 0) (.ofFields [("a", .bool true)]) w = some (1, w') ∧
      Steady 0 w.history.length w'.history ∧
      (do
        addMiddleware 0 .identity
        merge (invoke 3) (.root 0) (.ofFields [("a", .bool true)])) w = some (1, w'') ∧
      w''.state? 0 =
        some (.ofValue (.object [("a", .bool true), ("b", .bool true), ("z", .null)])) ∧
      w''.history = w'.history := by
  intro w
  have hsteady : Steady 0 0 [.merged (.root 0) (.ofFields [("a", .bool false), ("z", .null)])
      (.ofFields [("a", .bool true)]) 0, .told 0, .told 0, .called 0 0 3,
      .changed 0 (.ofValue (.object [("a", .bool true), ("b", .bool true), ("z", .null)])),
      .called 0 0 1, .changed 0 (.ofValue (.object [("a", .bool true), ("z", .null)]))] := by
    intro old entries since past hs _
    rcases List.suffix_cons_iff.1 hs with he | hs
    · obtain ⟨hmerged, hsince⟩ := List.cons.inj he
      injection hmerged with _ hold hentries hlength
      obtain rfl := List.length_eq_zero_iff.1 hlength
      rw [List.append_nil] at hsince
      subst hold hentries hsince
      intro v hv
      simp only [List.mem_cons, reduceCtorEq, Moment.changed.injEq, true_and, List.not_mem_nil,
        or_false, false_or] at hv
      rcases hv with rfl | rfl
      · decide +kernel
      · decide +kernel
    · have hmem := hs.subset List.mem_cons_self
      simp at hmem
  have hplain : merge (invoke 2) (.root 0) (.ofFields [("a", .bool true)]) w = some (1, _) := rfl
  obtain ⟨w'', hmerge, -, hstate, hhistory⟩ :=
    merge_through_identity rfl rfl hplain hsteady (show 2 < 3 by decide)
  exact ⟨_, _, w'', rfl, rfl, hplain, hsteady, hmerge, hstate, hhistory⟩

/-- A listener writes a field that is no entry. Behind the middleware, the field gets its old value
back. -/
theorem identity_undoes_listener :
    let w : World Unit := ((World.build {} (fun _ host => host) [] ()).addStore
      (.ofFields [("a", .bool false), ("z", .bool false)]) fun _ host => host).1.modifyStore 0
      fun s => s.enlist (.script (.set (.root 0) "z" (.bool true) fun _ =>
          .unsubscribe 0 0 fun _ => .done))
    ∃ w' w'', merge (invoke 3) (.root 0) (.ofFields [("a", .bool true)]) w = some (1, w') ∧
      w'.state? 0 = some (.ofValue (.object [("a", .bool true), ("z", .bool true)])) ∧
      (do
        addMiddleware 0 .identity
        merge (invoke 3) (.root 0) (.ofFields [("a", .bool true)])) w = some (2, w'') ∧
      w''.state? 0 = some (.ofValue (.object [("a", .bool true), ("z", .bool false)])) :=
  ⟨_, _, rfl, rfl, rfl, rfl⟩

end Run

end LiveMarkup
