import LiveMarkup.Proofs.Template.Braces
import Mathlib.Data.List.Infix

/-!
# Where the body of a loop ends

The body of a loop ends at the first end marker with its key, so a body with as many starts as ends
of that key is found exactly if it holds none of them (`readLoop?_eq_iff`). Otherwise it is cut at
the end of a loop inside of it (`readLoop?_cuts_body`).
-/

namespace LiveMarkup

namespace Template

variable {mark start stop text key body rest : List Char}

/-- How often a mark occurs in a text. -/
def occurrences (mark text : List Char) : Nat := text.tails.countP fun tail => mark <+: tail

/-- There are as many ends as starts in a text, and not more of them in any beginning of it. -/
structure Balanced (start stop text : List Char) : Prop where
  prefix_le : ∀ p, p <+: text → occurrences stop p ≤ occurrences start p
  total_eq : occurrences stop text = occurrences start text

instance (start stop text : List Char) : Decidable (Balanced start stop text) :=
  decidable_of_iff ((∀ p ∈ text.inits, occurrences stop p ≤ occurrences start p) ∧
      occurrences stop text = occurrences start text)
    ⟨fun h => ⟨fun p hp => h.1 p ((List.mem_inits p text).2 hp), h.2⟩,
      fun h => ⟨fun p hp => h.1 p ((List.mem_inits p text).1 hp), h.2⟩⟩

theorem occurrences_eq_zero_iff : occurrences mark text = 0 ↔ ¬ mark <:+: text := by
  rw [occurrences, List.countP_eq_zero, List.infix_iff_prefix_suffix]
  simp only [List.mem_tails, decide_eq_true_eq, not_exists, not_and]
  exact forall_congr' fun tail => imp_not_comm

theorem Balanced.infix_iff (h : Balanced start stop text) : stop <:+: text ↔ start <:+: text := by
  have hnone : ¬ stop <:+: text ↔ ¬ start <:+: text := by
    rw [← occurrences_eq_zero_iff, ← occurrences_eq_zero_iff, h.total_eq]
  exact not_iff_not.1 hnone

/-- The marker that a loop begins with. -/
def loopStart (key : List Char) : List Char := inBraces ('#' :: key)

/-- The marker that a loop ends with. -/
def loopEnd (key : List Char) : List Char := inBraces ('/' :: key)

/-- The first end marker is the one behind the body, if there is none in the body. -/
theorem splitOnce?_loopEnd_eq_iff (hk : '\x7b' ∉ key) :
    splitOnce? (loopEnd key) (body ++ (loopEnd key ++ rest)) = some (body, rest) ↔
      ¬ loopEnd key <:+: body := by
  constructor
  · exact fun h => not_infix_of_splitOnce? h (List.cons_ne_nil _ _)
  · intro h
    rw [splitOnce?_append body, splitOnce?_self_append, Option.map_some]
    · simp
    · -- A marker that begins in the body and goes on behind it would have a third brace.
      intro before tail hbody htail hp
      have hword : '\x7b' ∉ '/' :: key ++ closeBraces := by simp [hk, closeBraces]
      rcases tail with _ | ⟨x, _ | ⟨z, tail⟩⟩
      · exact htail rfl
      · have hthird := (List.cons_prefix_cons.1 (List.cons_prefix_cons.1 hp).2).2
        exact absurd (List.cons_prefix_cons.1 hthird).1 (by decide)
      · obtain ⟨hx, hsecond⟩ := List.cons_prefix_cons.1 hp
        obtain ⟨hz, hthird⟩ := List.cons_prefix_cons.1 hsecond
        have hinside := prefix_of_prefix_append hword hthird
        refine h (List.infix_iff_prefix_suffix.2 ⟨_, ?_, ⟨before, hbody.symm⟩⟩)
        exact List.cons_prefix_cons.2 ⟨hx, List.cons_prefix_cons.2 ⟨hz, hinside⟩⟩

theorem readLoop?_append (hne : key ≠ []) (hk : ∀ c ∈ key, isWordChar c = true)
    (text : List Char) :
    readLoop? (key ++ (closeBraces ++ text)) =
      (splitOnce? (loopEnd key) text).map fun (content, rest) => (key, content, rest) := by
  have hclose : (closeBraces ++ text).takeWhile isWordChar = [] := rfl
  have hclose' : (closeBraces ++ text).dropWhile isWordChar = closeBraces ++ text := rfl
  simp only [readLoop?, List.takeWhile_append_of_pos hk, List.dropWhile_append_of_pos hk, hclose,
    hclose', List.append_nil, stripStart?_append]
  rw [if_neg (by simpa using hne), loopEnd]
  cases splitOnce? (inBraces ('/' :: key)) text <;> rfl

/-- A loop whose body is balanced in its own markers is split into its key, its body and what stands
behind it exactly if no loop with this key begins in the body. -/
theorem readLoop?_eq_iff (hne : key ≠ []) (hk : ∀ c ∈ key, isWordChar c = true)
    (hb : Balanced (loopStart key) (loopEnd key) body) (rest : List Char) :
    readLoop? (key ++ (closeBraces ++ (body ++ (loopEnd key ++ rest)))) = some (key, body, rest) ↔
      ¬ loopStart key <:+: body := by
  have hbrace : '\x7b' ∉ key := fun hm => absurd (hk _ hm) (by decide)
  rw [readLoop?_append hne hk, ← hb.infix_iff, ← splitOnce?_loopEnd_eq_iff hbrace]
  cases splitOnce? (loopEnd key) (body ++ (loopEnd key ++ rest)) with
  | none => simp
  | some found => simp [Prod.ext_iff]

/-- The body holds a loop with another key. -/
theorem readLoop?_eq_of_other_key :
    let body := "a ".toList ++ (loopStart "items".toList ++ ("b".toList ++ loopEnd "items".toList))
    Balanced (loopStart "item".toList) (loopEnd "item".toList) body ∧
      readLoop? ("item".toList ++ (closeBraces ++ (body ++ (loopEnd "item".toList ++
        "rest".toList)))) = some ("item".toList, body, "rest".toList) := by
  intro body
  have hb : Balanced (loopStart "item".toList) (loopEnd "item".toList) body := by decide
  have hk : ∀ c ∈ "item".toList, isWordChar c = true := List.all_eq_true.1 (by decide)
  exact ⟨hb, (readLoop?_eq_iff (by decide) hk hb "rest".toList).2 (by decide)⟩

/-- The body holds a loop with the same key, and is cut at its end. -/
theorem readLoop?_cuts_body :
    let cut := "a ".toList ++ (loopStart "item".toList ++ "b".toList)
    let body := cut ++ loopEnd "item".toList
    Balanced (loopStart "item".toList) (loopEnd "item".toList) body ∧
      readLoop? ("item".toList ++ (closeBraces ++ (body ++ (loopEnd "item".toList ++
        "rest".toList)))) =
          some ("item".toList, cut, loopEnd "item".toList ++ "rest".toList) := by
  decide

end Template

end LiveMarkup
