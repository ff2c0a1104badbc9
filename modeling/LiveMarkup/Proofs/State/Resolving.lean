import LiveMarkup.Json.Fields
import LiveMarkup.State.Path

/-!
# Following a path after a write

What is put at the end of a path is found there afterwards, if the path led anywhere before
(`Value.resolve?_replaceAt`). So something changes, unless it was there before.
-/

namespace LiveMarkup

namespace Value

variable {v w old new : Value} {s : Segment} {path : Path}

theorem step?_replaceStep (h : v.step? s = some w) : (v.replaceStep s new).step? s = some new := by
  cases v with
  | object fields =>
    cases s with
    | key k =>
      have hfound : Fields.find? fields k = some w := h
      have hk : Fields.contains fields k = true := by
        rw [Fields.contains, hfound, Option.isSome_some]
      rw [replaceStep, if_pos hk, step?, Fields.find?_insert, if_pos rfl]
    | index i => cases h
  | array items =>
    cases s with
    | key k => cases h
    | index i =>
      obtain ⟨hi, -⟩ := List.getElem?_eq_some_iff.1 h
      exact List.getElem?_set_self hi
  | _ => cases s <;> cases h

theorem resolve?_replaceAt (h : v.resolve? path = some old) :
    (v.replaceAt path new).resolve? path = some new := by
  induction path generalizing v with
  | nil => rfl
  | cons s rest ih =>
    rw [resolve?] at h
    split at h
    · next w hw =>
      rw [replaceAt, hw, resolve?]
      simp only
      rw [step?_replaceStep hw]
      exact ih h
    · cases h

theorem replaceAt_ne (h : v.resolve? path = some old) (hne : new ≠ old) :
    v.replaceAt path new ≠ v := by
  intro he
  have hnew : (v.replaceAt path new).resolve? path = some new := resolve?_replaceAt h
  rw [he, h] at hnew
  exact hne (Option.some.inj hnew).symm

end Value

end LiveMarkup
