import LiveMarkup.Proofs.Template.Blocks

/-!
# Where the branches of a conditional end

The branches of a conditional are split by a search for `{{` that goes on behind the two braces it
found (`branchesAt_of_enter`). So it takes the braces of a run `{{…{` in pairs, and sees a marker
only if an even number of opening braces stands directly before it.

* `walk` goes through a text inside of a branch and counts the conditionals that are open, either
  at every marker or only at those behind an even number of braces.
* `IsWhole` says that a text is a whole branch: all conditionals in it are closed again, no other
  branch begins outside of them, and its end is seen.
* `readConditional?_eq_iff`: a conditional is split into the branches it was put together from
  exactly if each of them is whole with the markers counted that are seen.

A branch may be whole with every marker counted and be cut all the same
(`readConditional?_cuts_branch`). It is not if no marker stands behind an odd number of braces
(`IsWhole.of_aligned`).
-/

namespace LiveMarkup

namespace Template

variable {word text more condition body seen rest afterOpen p y : List Char}
  {depth depth' : Nat} {every last odd odd' : Bool} {condition? : Option (List Char)} {c b : Char}
  {k : Conditional}

/-! ## Markers -/

theorem stripStart?_append_brace (hw : '\x7b' ∉ word) (text more : List Char) :
    stripStart? word (text ++ '\x7b' :: more) =
      (stripStart? word text).map (· ++ '\x7b' :: more) := by
  cases h : stripStart? word text with
  | some r =>
    rw [eq_append_of_stripStart? h, List.append_assoc, stripStart?_append, Option.map_some]
  | none =>
    rw [Option.map_none, stripStart?_eq_none_iff]
    exact fun hp => stripStart?_eq_none_iff.1 h (prefix_of_prefix_append hw hp)

theorem afterKeyword?_append_brace (hw : '\x7b' ∉ word) (text more : List Char) :
    afterKeyword? word (text ++ '\x7b' :: more) =
      (afterKeyword? word text).map (· ++ '\x7b' :: more) := by
  rw [afterKeyword?, afterKeyword?, stripStart?_append_brace hw]
  cases stripStart? word text with
  | none => rfl
  | some r =>
    cases r with
    | nil => rfl
    | cons c r =>
      simp only [Option.map_some, List.cons_append]
      split <;> rfl

theorem firstOf?_map (f : List Char → List Char) (a b : Option (List Char)) :
    firstOf? (a.map f) (b.map f) = (firstOf? a b).map f := by
  cases a <;> rfl

namespace BranchMarker

/-- The marker with more text behind it. -/
def extend (more : List Char) : BranchMarker → BranchMarker
  | opening rest => opening (rest ++ more)
  | closing rest => closing (rest ++ more)
  | elseif rest => elseif (rest ++ more)
  | otherwise rest => otherwise (rest ++ more)
  | other => other

/-- How many conditionals are open behind a marker inside of a branch, and none if the branch ends
at it. No other branch begins in the last one. -/
def enter (last : Bool) (depth : Nat) : BranchMarker → Option Nat
  | opening _ => some (depth + 1)
  | closing _ => if depth = 0 then none else some (depth - 1)
  | elseif _ => if depth = 0 ∧ !last then none else some depth
  | otherwise _ => if depth = 0 ∧ !last then none else some depth
  | other => some depth

/-- The marker that a text begins with. -/
def ofText (text : List Char) : BranchMarker :=
  match stripStart? openBraces text with
  | some afterOpen => read afterOpen
  | none => other

theorem enter_extend (more : List Char) (m : BranchMarker) :
    (m.extend more).enter last depth = m.enter last depth := by
  cases m <;> rfl

theorem exists_enter_of_ne_zero (last : Bool) (hd : depth ≠ 0) (m : BranchMarker) :
    ∃ depth', m.enter last depth = some depth' := by
  cases m <;> simp [enter, hd]

/-- No marker reaches across a brace that opens. -/
theorem read_append_brace (text more : List Char) :
    read (text ++ '\x7b' :: more) = (read text).extend ('\x7b' :: more) := by
  rw [read, read, splitElseif?, splitElseif?, splitElse?, splitElse?,
    afterKeyword?_append_brace (by decide), stripStart?_append_brace (by decide),
    afterKeyword?_append_brace (by decide), afterKeyword?_append_brace (by decide),
    stripStart?_append_brace (by decide), stripStart?_append_brace (by decide), firstOf?_map,
    firstOf?_map]
  cases afterKeyword? "#if".toList text with
  | some r => rfl
  | none =>
    cases stripStart? "/if\x7d\x7d".toList text with
    | some r => rfl
    | none =>
      cases firstOf? (afterKeyword? "elseif".toList text)
          (afterKeyword? "#elseif".toList text) with
      | some r => rfl
      | none =>
        cases firstOf? (stripStart? "else\x7d\x7d".toList text)
          (stripStart? "#else\x7d\x7d".toList text) <;> rfl

theorem read_brace (more : List Char) : read ('\x7b' :: more) = other := read_append_brace [] more

theorem ofText_cons_of_ne (hc : c ≠ '\x7b') (text : List Char) : ofText (c :: text) = other := by
  have : stripStart? openBraces (c :: text) = none :=
    stripStart?_eq_none_iff.2 fun hp => hc (List.cons_prefix_cons.1 hp).1.symm
  rw [ofText, this]

theorem ofText_brace_of_ne (hc : c ≠ '\x7b') (text : List Char) :
    ofText ('\x7b' :: c :: text) = other := by
  have : stripStart? openBraces ('\x7b' :: c :: text) = none :=
    stripStart?_eq_none_iff.2 fun hp =>
      hc (List.cons_prefix_cons.1 (List.cons_prefix_cons.1 hp).2).1.symm
  rw [ofText, this]

theorem ofText_openBraces (afterOpen : List Char) :
    ofText ('\x7b' :: '\x7b' :: afterOpen) = read afterOpen := by
  rw [ofText, show '\x7b' :: '\x7b' :: afterOpen = openBraces ++ afterOpen from rfl,
    stripStart?_append]

theorem eq_append_of_read_eq_opening (h : read text = opening rest) :
    text = "#if".toList ++ rest := by
  rw [read] at h
  split at h
  · next hk =>
    cases h
    rw [afterKeyword?] at hk
    split at hk
    · next hs =>
      split at hk
      · cases hk
        exact eq_append_of_stripStart? hs
      · cases hk
    · cases hk
  · repeat' split at h
    all_goals cases h

theorem eq_append_of_read_eq_closing (h : read text = closing rest) :
    text = "/if\x7d\x7d".toList ++ rest := by
  rw [read] at h
  split at h
  · cases h
  · split at h
    · next hs =>
      cases h
      exact eq_append_of_stripStart? hs
    · repeat' split at h
      all_goals cases h

end BranchMarker

open BranchMarker

/-! ## One marker after another -/

/-- At a marker that does not end the branch, only the depth changes, and the search goes on behind
the two braces. -/
theorem branchesAt_of_enter (h : (BranchMarker.read afterOpen).enter last depth = some depth') :
    branchesAt depth last condition? seen afterOpen =
      splitBranches? depth' last condition? (seen ++ openBraces) afterOpen := by
  rw [branchesAt]
  cases hm : BranchMarker.read afterOpen with
  | opening rest =>
    have hrun : '\x7b' ∉ "#if".toList := by decide
    rw [hm] at h
    obtain rfl : depth + 1 = depth' := Option.some.inj h
    rw [eq_append_of_read_eq_opening hm, splitBranches?_append hrun, List.append_assoc]
    rfl
  | closing rest =>
    have hrun : '\x7b' ∉ "/if\x7d\x7d".toList := by decide
    rw [hm, enter] at h
    cases depth with
    | zero => cases h
    | succ depth =>
      obtain rfl : depth = depth' := Option.some.inj h
      rw [eq_append_of_read_eq_closing hm, splitBranches?_append hrun, List.append_assoc]
      rfl
  | elseif rest =>
    rw [hm, enter] at h
    split at h
    · cases h
    · next hd =>
      cases h
      exact if_neg hd
  | otherwise rest =>
    rw [hm, enter] at h
    split at h
    · cases h
    · next hd =>
      cases h
      exact if_neg hd
  | other =>
    rw [hm] at h
    cases h
    rfl

/-- A marker that ends the branch ends it with what was seen so far. -/
theorem first_branch_of_enter_eq_none
    (h : (BranchMarker.read afterOpen).enter last depth = none)
    (hk : branchesAt depth last condition? seen afterOpen = some k) :
    ∃ later, k.branches = ⟨condition?, seen⟩ :: later := by
  rw [branchesAt] at hk
  cases hm : BranchMarker.read afterOpen with
  | opening rest =>
    rw [hm] at h
    cases h
  | closing rest =>
    rw [hm, enter] at h
    split at h
    · next hd =>
      subst hd
      rw [hm] at hk
      cases hk
      exact ⟨[], rfl⟩
    · cases h
  | elseif rest =>
    rw [hm, enter] at h
    split at h
    · next hd =>
      simp only [hm, if_pos hd] at hk
      split at hk
      · cases hk
      · obtain ⟨d, -, rfl⟩ := Option.map_eq_some_iff.1 hk
        exact ⟨d.branches, rfl⟩
    · cases h
  | otherwise rest =>
    rw [hm, enter] at h
    split at h
    · next hd =>
      simp only [hm, if_pos hd] at hk
      obtain ⟨d, -, rfl⟩ := Option.map_eq_some_iff.1 hk
      exact ⟨d.branches, rfl⟩
    · cases h
  | other =>
    rw [hm] at h
    cases h

/-- The first branch begins with what was seen so far. -/
theorem first_branch_of_splitBranches? :
    splitBranches? depth last condition? seen text = some k →
    ∃ body later, k.branches = ⟨condition?, body⟩ :: later ∧ seen <+: body := by
  induction hn : text.length using Nat.strongRecOn generalizing depth seen text with
  | _ n ih =>
    intro hk
    rw [splitBranches?_eq] at hk
    split at hk
    · cases hk
    · next before afterOpen hs =>
      have hlength := length_of_splitOnce? hs
      cases he : (BranchMarker.read afterOpen).enter last depth with
      | none =>
        obtain ⟨later, hl⟩ := first_branch_of_enter_eq_none he hk
        exact ⟨_, later, hl, List.prefix_append _ _⟩
      | some depth' =>
        rw [branchesAt_of_enter he] at hk
        have hshort : afterOpen.length < n := by
          simp only [openBraces, List.length_cons] at hlength
          omega
        obtain ⟨body, later, hl, hp⟩ := ih _ hshort rfl hk
        exact ⟨body, later, hl, ((List.prefix_append _ _).trans (List.prefix_append _ _)).trans hp⟩

/-! ## Going through a branch -/

/-- How many conditionals are open behind a text inside of a branch, and whether it ends with an odd
number of opening braces, if it began with so many open and behind an odd number of braces or not.
There is no answer if the branch ends within. Markers behind an odd number of braces are passed
over, unless every marker counts. -/
def walk (every last : Bool) (depth : Nat) (odd : Bool) : List Char → Option (Nat × Bool)
  | [] => some (depth, odd)
  | c :: rest =>
    let marker := if every || !odd then BranchMarker.ofText (c :: rest) else .other
    match marker.enter last depth with
    | none => none
    | some depth => walk every last depth (c == '\x7b' && !odd) rest

/-- The text is a whole branch: the conditionals in it are closed again, no other branch begins
outside of them, and the marker behind it counts. -/
def IsWhole (every last : Bool) (body : List Char) : Prop :=
  ∃ odd, walk every last 0 false body = some (0, odd) ∧ (every || !odd) = true

instance (every last : Bool) (body : List Char) : Decidable (IsWhole every last body) :=
  decidable_of_iff (walk every last 0 false body = some (0, false) ∨
      walk every last 0 false body = some (0, true) ∧ every = true) <| by
    constructor
    · rintro (h | ⟨h, rfl⟩)
      · exact ⟨false, h, Bool.or_true every⟩
      · exact ⟨true, h, rfl⟩
    · rintro ⟨odd, h, he⟩
      cases odd with
      | false => exact .inl h
      | true => exact .inr ⟨h, by simpa using he⟩

theorem walk_cons_of_ne (hc : c ≠ '\x7b') (text : List Char) :
    walk every last depth odd (c :: text) = walk every last depth false text := by
  have hb : (c == '\x7b') = false := beq_eq_false_iff_ne.2 hc
  rw [walk, ofText_cons_of_ne hc, ite_self, hb]
  rfl

theorem walk_brace : walk false last depth false ['\x7b'] = some (depth, true) := rfl

theorem walk_brace_of_ne (hc : c ≠ '\x7b') (text : List Char) :
    walk false last depth false ('\x7b' :: c :: text) = walk false last depth false text := by
  rw [walk, ofText_brace_of_ne hc, ite_self]
  exact walk_cons_of_ne hc text

theorem walk_openBraces (afterOpen : List Char) :
    walk false last depth false ('\x7b' :: '\x7b' :: afterOpen) =
      match (BranchMarker.read afterOpen).enter last depth with
      | none => none
      | some depth => walk false last depth false afterOpen := by
  rw [walk, ofText_openBraces]
  rfl

/-- Whether an odd number of opening braces stands at the end of a text, or of what stands before it
where the text holds nothing else. -/
def endsOdd (odd : Bool) (text : List Char) : Bool :=
  text.foldl (fun odd c => c == '\x7b' && !odd) odd

theorem eq_endsOdd_of_walk (h : walk every last depth odd text = some (depth', odd')) :
    odd' = endsOdd odd text := by
  induction text generalizing depth odd with
  | nil =>
    cases h
    rfl
  | cons c text ih =>
    rw [walk] at h
    split at h
    · cases h
    · exact ih h

theorem walk_eq_of_aligned (h : ∀ before behind, text = before ++ behind →
      endsOdd odd before = true → BranchMarker.ofText behind = .other) :
    walk true last depth odd text = walk false last depth odd text := by
  induction text generalizing depth odd with
  | nil => rfl
  | cons c text ih =>
    have hmarker : (if true || !odd then BranchMarker.ofText (c :: text) else .other) =
        if false || !odd then BranchMarker.ofText (c :: text) else .other := by
      cases odd with
      | false => rfl
      | true => exact h [] (c :: text) rfl rfl
    have hnext (depth : Nat) : walk true last depth (c == '\x7b' && !odd) text =
        walk false last depth (c == '\x7b' && !odd) text :=
      ih fun before behind ht ho => h (c :: before) behind (by rw [ht]; rfl) ho
    rw [walk, walk]
    simp only [hmarker, hnext]

/-- If no marker stands behind an odd number of opening braces, and neither does the end, then it
does not matter whether such markers count. -/
theorem IsWhole.of_aligned (h : IsWhole true last body)
    (hmarkers : ∀ before behind, body = before ++ behind → endsOdd false before = true →
      BranchMarker.ofText behind = .other)
    (hend : endsOdd false body = false) : IsWhole false last body := by
  obtain ⟨odd, hw, -⟩ := h
  rw [walk_eq_of_aligned hmarkers] at hw
  exact ⟨odd, hw, by rw [eq_endsOdd_of_walk hw, hend]; rfl⟩

theorem splitBranches?_brace_of_ne (hc : c ≠ '\x7b') (text : List Char) :
    splitBranches? depth last condition? seen ('\x7b' :: c :: text) =
      splitBranches? depth last condition? (seen ++ ['\x7b', c]) text := by
  have hsplit : splitOnce? openBraces (['\x7b', c] ++ text) =
      (splitOnce? openBraces text).map (Prod.map (['\x7b', c] ++ ·) id) := by
    refine splitOnce?_append _ fun u v huv hv hp => ?_
    rcases u with _ | ⟨x, _ | ⟨z, u⟩⟩
    · rw [List.nil_append] at huv
      rw [← huv] at hp
      exact hc (List.cons_prefix_cons.1 (List.cons_prefix_cons.1 hp).2).1.symm
    · obtain ⟨-, rfl⟩ := List.cons.inj huv
      exact hc (List.cons_prefix_cons.1 hp).1.symm
    · have hlength := congrArg List.length huv
      have := List.length_pos_iff.2 hv
      simp only [List.length_cons, List.length_append, List.length_nil] at hlength
      omega
  rw [show '\x7b' :: c :: text = ['\x7b', c] ++ text from rfl, splitBranches?_eq,
    splitBranches?_eq, hsplit]
  cases splitOnce? openBraces text with
  | none => rfl
  | some found =>
    obtain ⟨before, afterOpen⟩ := found
    simp only [Option.map_some, Prod.map, id, List.append_assoc]

theorem splitBranches?_cons_of_ne (hc : c ≠ '\x7b') (text : List Char) :
    splitBranches? depth last condition? seen (c :: text) =
      splitBranches? depth last condition? (seen ++ [c]) text :=
  splitBranches?_append (p := [c]) (by simpa using hc.symm) text

/-- Induction along a text in the way in which its braces are taken, one character or two at a
time. -/
theorem bracePairs_induction {motive : List Char → Prop} (nil : motive [])
    (lone : motive ['\x7b'])
    (run : ∀ c text, c ≠ '\x7b' → motive text → motive (c :: text))
    (single : ∀ c text, c ≠ '\x7b' → motive text → motive ('\x7b' :: c :: text))
    (pair : ∀ text, motive text → motive ('\x7b' :: '\x7b' :: text)) :
    ∀ text, motive text
  | [] => nil
  | [c] => by
    by_cases hc : c = '\x7b'
    · exact hc ▸ lone
    · exact run c [] hc nil
  | c :: d :: text => by
    have hnext := bracePairs_induction nil lone run single pair (d :: text)
    have hbehind := bracePairs_induction nil lone run single pair text
    by_cases hc : c = '\x7b'
    · subst hc
      by_cases hd : d = '\x7b'
      · exact hd ▸ pair text hbehind
      · exact single d text hd hbehind
    · exact run c (d :: text) hc hnext

/-- The search comes through a text with two braces behind it as `walk` does. If the text ends with
an odd number of braces, the first of the two is taken together with the last of these. -/
theorem splitBranches?_of_walk (condition? : Option (List Char)) (y : List Char)
    (h : walk false last depth false p = some (depth', odd)) :
    splitBranches? depth last condition? seen (p ++ (openBraces ++ y)) =
      if odd then splitBranches? depth' last condition? (seen ++ (p ++ ['\x7b'])) ('\x7b' :: y)
      else splitBranches? depth' last condition? (seen ++ p) (openBraces ++ y) := by
  induction p using bracePairs_induction generalizing depth seen with
  | nil =>
    cases h
    rw [List.nil_append, List.append_nil]
    rfl
  | lone =>
    rw [walk_brace] at h
    cases h
    have hother : (BranchMarker.read ('\x7b' :: y)).enter last depth' = some depth' := by
      rw [read_brace]
      rfl
    exact (splitBranches?_openBraces ('\x7b' :: y)).trans (branchesAt_of_enter hother)
  | run c p hc ih =>
    rw [walk_cons_of_ne hc] at h
    rw [List.cons_append, splitBranches?_cons_of_ne hc, ih h]
    simp only [List.append_assoc, List.cons_append, List.nil_append]
  | single c p hc ih =>
    rw [walk_brace_of_ne hc] at h
    rw [List.cons_append, List.cons_append, splitBranches?_brace_of_ne hc, ih h]
    simp only [List.append_assoc, List.cons_append, List.nil_append]
  | pair p ih =>
    rw [walk_openBraces] at h
    cases he : (BranchMarker.read p).enter last depth with
    | none =>
      rw [he] at h
      cases h
    | some depth'' =>
      rw [he] at h
      have hread :
          (BranchMarker.read (p ++ (openBraces ++ y))).enter last depth = some depth'' := by
        rw [openBraces, List.cons_append, read_append_brace, enter_extend, he]
      rw [List.cons_append, List.cons_append]
      refine (splitBranches?_openBraces _).trans ((branchesAt_of_enter hread).trans ?_)
      rw [ih h]
      simp only [openBraces, List.append_assoc, List.cons_append, List.nil_append]

/-- A branch that ends within a text is cut there. -/
theorem first_branch_of_walk_eq_none (y : List Char)
    (h : walk false last depth false p = none)
    (hk : splitBranches? depth last condition? seen (p ++ (openBraces ++ y)) = some k) :
    ∃ q later, k.branches = ⟨condition?, seen ++ q⟩ :: later ∧ q.length < p.length := by
  induction p using bracePairs_induction generalizing depth seen with
  | nil => cases h
  | lone => cases h
  | run c p hc ih =>
    rw [walk_cons_of_ne hc] at h
    rw [List.cons_append, splitBranches?_cons_of_ne hc] at hk
    obtain ⟨q, later, hl, hq⟩ := ih h hk
    exact ⟨c :: q, later, by rw [hl, List.append_assoc]; rfl, Nat.succ_lt_succ hq⟩
  | single c p hc ih =>
    rw [walk_brace_of_ne hc] at h
    rw [List.cons_append, List.cons_append, splitBranches?_brace_of_ne hc] at hk
    obtain ⟨q, later, hl, hq⟩ := ih h hk
    exact ⟨'\x7b' :: c :: q, later, by rw [hl, List.append_assoc]; rfl,
      Nat.succ_lt_succ (Nat.succ_lt_succ hq)⟩
  | pair p ih =>
    have hread : (BranchMarker.read (p ++ (openBraces ++ y))).enter last depth =
        (BranchMarker.read p).enter last depth := by
      rw [openBraces, List.cons_append, read_append_brace, enter_extend]
    have hk : branchesAt depth last condition? seen (p ++ (openBraces ++ y)) = some k :=
      (splitBranches?_openBraces _).symm.trans hk
    rw [walk_openBraces] at h
    cases he : (BranchMarker.read p).enter last depth with
    | none =>
      obtain ⟨later, hl⟩ := first_branch_of_enter_eq_none (hread.trans he) hk
      exact ⟨[], later, by rw [hl, List.append_nil], Nat.zero_lt_succ _⟩
    | some depth' =>
      rw [he] at h
      rw [branchesAt_of_enter (hread.trans he)] at hk
      obtain ⟨q, later, hl, hq⟩ := ih h hk
      exact ⟨openBraces ++ q, later, by rw [hl, List.append_assoc],
        Nat.succ_lt_succ (Nat.succ_lt_succ hq)⟩

/-! ## One branch -/

theorem splitBranches?_of_isWhole (h : IsWhole false last body) (condition? : Option (List Char))
    (y : List Char) :
    splitBranches? 0 last condition? [] (body ++ (openBraces ++ y)) =
      splitBranches? 0 last condition? body (openBraces ++ y) := by
  obtain ⟨odd, hw, ho⟩ := h
  rw [splitBranches?_of_walk condition? y hw]
  cases odd with
  | false => rfl
  | true => cases ho

/-- A branch that is not whole is not found. -/
theorem branches_ne_of_not_isWhole (h : ¬ IsWhole false last body)
    (hk : splitBranches? 0 last condition? [] (body ++ (openBraces ++ y)) = some k)
    (later : List Branch) : k.branches ≠ ⟨condition?, body⟩ :: later := by
  intro hl
  -- A branch that was seen to be longer is another one.
  have longer {depth : Nat} {more text : List Char} (hm : more ≠ []) :
      splitBranches? depth last condition? (body ++ more) text ≠ some k := by
    intro hk
    obtain ⟨found, later', hl', hp⟩ := first_branch_of_splitBranches? hk
    rw [hl] at hl'
    cases hl'
    have := hp.length_le
    have := List.length_pos_iff.2 hm
    rw [List.length_append] at *
    omega
  cases hw : walk false last 0 false body with
  | none =>
    obtain ⟨q, later', hl', hq⟩ := first_branch_of_walk_eq_none y hw hk
    rw [hl] at hl'
    cases hl'
    exact Nat.lt_irrefl _ hq
  | some found =>
    obtain ⟨depth, odd⟩ := found
    rw [splitBranches?_of_walk condition? y hw] at hk
    cases odd with
    | true => exact longer (List.cons_ne_nil _ _) hk
    | false =>
      have hdepth : depth ≠ 0 := by
        rintro rfl
        exact h ⟨false, hw, rfl⟩
      obtain ⟨depth', he⟩ := exists_enter_of_ne_zero last hdepth (BranchMarker.read y)
      rw [if_neg Bool.false_ne_true, splitBranches?_openBraces, branchesAt_of_enter he] at hk
      exact longer (List.cons_ne_nil _ _) hk

/-- A branch is found exactly if it is whole and ended by the marker behind it. -/
theorem splitBranches?_eq_some_iff {later : List Branch} :
    splitBranches? 0 last condition? [] (body ++ (openBraces ++ y)) =
        some ⟨⟨condition?, body⟩ :: later, rest⟩ ↔
      IsWhole false last body ∧
        branchesAt 0 last condition? body y = some ⟨⟨condition?, body⟩ :: later, rest⟩ := by
  by_cases h : IsWhole false last body
  · rw [splitBranches?_of_isWhole h, splitBranches?_openBraces, and_iff_right h]
  · refine iff_of_false (fun hk => ?_) fun hk => h hk.1
    exact branches_ne_of_not_isWhole h hk later rfl

/-! ## Branches in order -/

/-- The word of a marker, which may have a `#` in front. -/
def markerWord (hash : Bool) (word : List Char) : List Char := if hash then '#' :: word else word

/-- The branches of a conditional behind the first one, as texts. -/
inductive Alternatives
  | done
  | otherwise (hash : Bool) (body : List Char)
  | elseif (hash : Bool) (condition body : List Char) (later : Alternatives)

namespace Alternatives

/-- The text of the branches, each with its marker in front. -/
def write : Alternatives → List Char
  | done => []
  | otherwise hash body => inBraces (markerWord hash "else".toList) ++ body
  | elseif hash condition body later =>
    inBraces (markerWord hash "elseif".toList ++ condition) ++ (body ++ later.write)

/-- The branches in order. -/
def branches : Alternatives → List Branch
  | done => []
  | otherwise _ body => [⟨none, body⟩]
  | elseif _ condition body later => ⟨some condition, body⟩ :: later.branches

/-- Behind the word `elseif` there is a blank, and the conditions hold no brace that closes. -/
def WellFormed : Alternatives → Prop
  | done => True
  | otherwise _ _ => True
  | elseif _ condition _ later =>
    (∃ b ∈ condition.head?, isBlank b = true) ∧ '\x7d' ∉ condition ∧ later.WellFormed

/-- Each branch is whole. -/
def AreWhole (every : Bool) : Alternatives → Prop
  | done => True
  | otherwise _ body => IsWhole every true body
  | elseif _ _ body later => IsWhole every false body ∧ later.AreWhole every

instance decidableAreWhole (every : Bool) : (others : Alternatives) →
    Decidable (others.AreWhole every)
  | done => inferInstanceAs (Decidable True)
  | otherwise _ body => inferInstanceAs (Decidable (IsWhole every true body))
  | elseif _ _ _ later =>
    have := decidableAreWhole every later
    inferInstanceAs (Decidable (_ ∧ _))

end Alternatives

theorem branchesAt_otherwise (hash : Bool) (condition? : Option (List Char))
    (seen rest : List Char) :
    branchesAt 0 false condition? seen
        (markerWord hash "else".toList ++ (closeBraces ++ rest)) =
      (splitBranches? 0 true none [] rest).map (Conditional.cons ⟨condition?, seen⟩) := by
  cases hash <;> rfl

theorem branchesAt_elseif (hash : Bool) (condition? : Option (List Char)) (seen rest : List Char)
    (hb : ∃ b ∈ condition.head?, isBlank b = true) (hc : '\x7d' ∉ condition) :
    branchesAt 0 false condition? seen
        (markerWord hash "elseif".toList ++ (condition ++ (closeBraces ++ rest))) =
      (splitBranches? 0 false (some condition) [] rest).map
        (Conditional.cons ⟨condition?, seen⟩) := by
  have hsplit : splitOnce? closeBraces (condition ++ (closeBraces ++ rest)) =
      some (condition, rest) := splitOnce?_append_mark hc
  obtain ⟨b, hmem, hblank⟩ := hb
  obtain ⟨tail, rfl⟩ : ∃ tail, condition = b :: tail := by
    cases condition with
    | nil => cases hmem
    | cons d tail => exact ⟨tail, by rw [Option.some.inj hmem]⟩
  have hread : BranchMarker.read
      (markerWord hash "elseif".toList ++ (b :: tail ++ (closeBraces ++ rest))) =
        .elseif (b :: tail ++ (closeBraces ++ rest)) := by
    cases hash <;>
      simp [BranchMarker.read, markerWord, afterKeyword?, stripStart?, splitElseif?, firstOf?,
        hblank]
  rw [branchesAt, hread]
  simp only [and_self, Bool.not_false, if_true, hsplit]

theorem map_cons_eq_some_iff {k? : Option Conditional} {branch : Branch} {later : List Branch} :
    k?.map (Conditional.cons branch) = some ⟨branch :: later, rest⟩ ↔ k? = some ⟨later, rest⟩ := by
  cases k? with
  | none => exact iff_of_false (fun h => by cases h) fun h => by cases h
  | some k =>
    obtain ⟨branches, behind⟩ := k
    simp [Conditional.cons]

/-- The branches from one of them on, up to the end of the conditional, are found exactly if they
are whole. -/
theorem splitBranches?_eq_iff (rest : List Char) : ∀ (others : Alternatives) {body : List Char}
    {condition? : Option (List Char)}, others.WellFormed →
    (splitBranches? 0 false condition? []
        (body ++ (others.write ++ (inBraces "/if".toList ++ rest))) =
      some ⟨⟨condition?, body⟩ :: others.branches, rest⟩ ↔
        IsWhole false false body ∧ others.AreWhole false)
  | .done, body, condition?, _ => by
    rw [Alternatives.write, List.nil_append, inBraces_append, splitBranches?_eq_some_iff]
    exact and_congr_right fun _ => iff_of_true rfl trivial
  | .otherwise hash last, body, condition?, _ => by
    rw [Alternatives.write, List.append_assoc, inBraces_append, splitBranches?_eq_some_iff,
      branchesAt_otherwise, Alternatives.branches, map_cons_eq_some_iff, inBraces_append,
      splitBranches?_eq_some_iff]
    exact and_congr_right fun _ => and_iff_left rfl
  | .elseif hash condition next others, body, condition?, h => by
    rw [Alternatives.write, List.append_assoc, inBraces_append, List.append_assoc (markerWord _ _),
      splitBranches?_eq_some_iff, branchesAt_elseif hash _ _ _ h.1 h.2.1, Alternatives.branches,
      map_cons_eq_some_iff, List.append_assoc next, splitBranches?_eq_iff rest others h.2.2]
    rfl

theorem readConditional?_cons (hb : isBlank b = true) (hc : '\x7d' ∉ condition) (text : List Char) :
    readConditional? (b :: (condition ++ (closeBraces ++ text))) =
      splitBranches? 0 false (some condition) [] text := by
  have hsplit : splitOnce? closeBraces (condition ++ (closeBraces ++ text)) =
      some (condition, text) := splitOnce?_append_mark hc
  rw [readConditional?, if_pos hb, hsplit]

/-- A conditional is split into the branches that it was put together from exactly if each of them
is whole with the markers counted behind an even number of opening braces, whatever stands behind
the conditional. -/
theorem readConditional?_eq_iff (hb : isBlank b = true) (hc : Braceless condition)
    (others : Alternatives) (ho : others.WellFormed) (rest : List Char) :
    readConditional? (b :: (condition ++ (closeBraces ++
        (body ++ (others.write ++ (inBraces "/if".toList ++ rest)))))) =
      some ⟨⟨some condition, body⟩ :: others.branches, rest⟩ ↔
        IsWhole false false body ∧ others.AreWhole false := by
  rw [readConditional?_cons hb hc.2]
  exact splitBranches?_eq_iff rest others ho

/-- Conditionals inside of the branches, with branches of their own, and braces beside them. -/
theorem readConditional?_eq_of_nested :
    let nested := inBraces "#if b".toList ++ ("x".toList ++ (inBraces "else".toList ++
      ("y".toList ++ inBraces "/if".toList)))
    let first := "p \x7b ".toList ++ (nested ++ "\x7d".toList)
    let second := openBraces ++ nested
    readConditional? (' ' :: ("a".toList ++ (closeBraces ++ (first ++
        (inBraces "#elseif c".toList ++ (second ++ (inBraces "else".toList ++ ("z".toList ++
          (inBraces "/if".toList ++ "rest".toList))))))))) =
      some ⟨[⟨some "a".toList, first⟩, ⟨some " c".toList, second⟩, ⟨none, "z".toList⟩],
        "rest".toList⟩ := by
  intro nested first second
  exact (readConditional?_eq_iff (by decide) (by decide)
    (.elseif true " c".toList second (.otherwise false "z".toList))
    ⟨⟨' ', rfl, by decide⟩, by decide, trivial⟩ "rest".toList).2 (by decide)

/-- A conditional inside of a branch begins behind a single brace: every marker counted, the branch
is whole, but it is cut at the end of that conditional. -/
theorem readConditional?_cuts_branch :
    let cut := "p\x7b".toList ++ (inBraces "#if b".toList ++ "x".toList)
    let branch := cut ++ (inBraces "/if".toList ++ "\x7d".toList)
    IsWhole true false branch ∧
      readConditional? (' ' :: ("a".toList ++ (closeBraces ++ (branch ++
          inBraces "/if".toList)))) =
        some ⟨[⟨some "a".toList, cut⟩], "\x7d".toList ++ inBraces "/if".toList⟩ := by
  intro cut branch
  refine ⟨by decide, ?_⟩
  rw [readConditional?_cons (by decide) (by decide)]
  have hwhole : IsWhole false false cut ∧ Alternatives.done.AreWhole false := by decide
  exact (splitBranches?_eq_iff ("\x7d".toList ++ inBraces "/if".toList) .done trivial).2 hwhole

end Template

end LiveMarkup
