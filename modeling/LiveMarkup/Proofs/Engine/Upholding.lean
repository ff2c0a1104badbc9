import LiveMarkup.Engine.Execute
import LiveMarkup.Proofs.Engine.Ensuring

/-!
# What writes uphold

What is kept by single writes, and by the scripts that are called, is kept by all operations on
states that are put together from them (`Run.Upholds`): by removing, by writing many values, and by
merging through middleware (`Upholds.merge`).
-/

namespace LiveMarkup

namespace Run

variable {σ : Type} {P : World σ → Prop} {Allows : Program σ → Prop}
  {call : Callback σ → Run σ Unit}

/-- Writes and scripts keep `P`, if the scripts are allowed, and in a world with `P` those of
middleware are. -/
structure Upholds (P : World σ → Prop) (Allows : Program σ → Prop)
    (call : Callback σ → Run σ Unit) : Prop where
  write : ∀ store change, Keeps P (write call store change)
  script : ∀ p, Allows p → Keeps P (call (.script p))
  layers : ∀ w, P w → ∀ st ∈ w.stores, ∀ layer ∈ st.middleware, ∀ next old,
    Allows (layer.script next old)
  report : ∀ w, P w → ∀ st ∈ w.stores, ∀ d, P (w.report st.sink d)
  merged : ∀ w, P w → ∀ h old entries n, P (w.record (.merged h old entries n))

namespace Upholds

theorem remove (hc : Upholds P Allows call) (h : Handle) (key : String) :
    Keeps P (Run.remove call h key) := by
  unfold Run.remove
  refine .of_get fun w hw => ?_
  split
  · exact .of_pure fun _ h => h ▸ hw
  · exact ((hc.write h.store _).here hw).bind fun _ => .of_pure fun _ h => h

/-- To write entries is to write one after the other. -/
theorem setAll (hc : Upholds P Allows call) (h : Handle) (entries : List (String × OrderedValue)) :
    Keeps P (Run.setAll call h entries) := by
  induction entries with
  | nil => exact .of_pure fun _ h => h
  | cons entry rest ih =>
    exact (hc.write h.store _).bind fun _ => ih.bind fun _ => .of_pure fun _ h => h

theorem removeAll (hc : Upholds P Allows call) (h : Handle) (keys : List String) :
    Keeps P (Run.removeAll call h keys) := by
  induction keys with
  | nil => exact .of_pure fun _ h => h
  | cons key rest ih =>
    exact (hc.remove h key).bind fun _ => ih.bind fun _ => .of_pure fun _ h => h

/-- The middleware of a store is called as a callback, and its failures are reported by the
store. -/
theorem applyMiddleware (hc : Upholds P Allows call) (store : StoreId) (old : State)
    {layers : List (Middleware σ)}
    (hallows : ∀ layer ∈ layers, ∀ next old, Allows (layer.script next old)) (position : Nat)
    (next : State) : Keeps P (Run.applyMiddleware call store old position layers next) := by
  induction layers generalizing position next with
  | nil => exact .of_pure fun _ h => h
  | cons layer rest ih =>
    rw [List.forall_mem_cons] at hallows
    rw [Run.applyMiddleware]
    refine (hc.script _ (hallows.1 next.1 old.1)).bind fun _ => ?_
    split
    · exact ih hallows.2 _ _
    · refine .bind (.of_modify fun w hw => ?_) fun _ => ih hallows.2 _ _
      split
      · next st hst => exact hc.report w hw st (List.mem_of_getElem? hst) _
      · exact hw

theorem mergeThrough (hc : Upholds P Allows call) (h : Handle) (old entries : State)
    {layers : List (Middleware σ)}
    (hallows : ∀ layer ∈ layers, ∀ next old, Allows (layer.script next old)) :
    Keeps P (Run.mergeThrough call h old entries layers) := by
  cases layers with
  | nil => exact hc.setAll h entries.entries
  | cons layer layers =>
    exact (hc.applyMiddleware h.store old hallows 0 _).bind fun next =>
      (hc.removeAll h _).bind fun _ => (hc.setAll h next.entries).bind fun _ =>
        .of_pure fun _ h => h

/-- Whatever single writes, allowed callbacks and reports uphold, merges uphold: they do nothing
else. -/
theorem merge (hc : Upholds P Allows call) (h : Handle) (entries : State) :
    Keeps P (Run.merge call h entries) := by
  unfold Run.merge
  refine .of_get fun w hw => ?_
  have hallows : ∀ layer ∈ middlewareOf w h, ∀ next old, Allows (layer.script next old) := by
    rw [middlewareOf]
    split
    · cases hst : w.stores[h.store]? with
      | none => simp
      | some st => exact hc.layers w hw st (List.mem_of_getElem? hst)
    · simp
  refine ((hc.mergeThrough h _ entries hallows).here hw).bind fun _ => ?_
  refine .bind (Q := fun _ => P) (.of_modify fun w hw => ?_) fun _ => .of_pure fun _ h => h
  exact hc.merged w hw _ _ _ _

end Upholds

end Run

end LiveMarkup
