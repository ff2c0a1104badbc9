import LiveMarkup.Proofs.Template.Outline

/-!
# Reading written blocks

A block that was written from an outline is split into the parts it was written from, whatever
stands behind it.

* `readLoop?_write`: the body of a loop ends at its own end marker, since no loop inside has its
  key.
* `readConditional?_write`: the branches of a conditional are its own, since conditionals inside
  have as many ends as beginnings (`splitBranches?_write`).
-/

namespace LiveMarkup

namespace Template

variable {key condition yes no tag seen rest p q : List Char}

/-! ## The starts of tags -/

theorem prefix_trimStart {x : Char} {word text : List Char} (hx : isBlank x = false)
    (h : x :: word <+: text) : x :: word <+: trimStart text := by
  obtain ⟨tail, rfl⟩ := h
  rw [trimStart, List.cons_append, List.dropWhile_cons_of_neg (by simp [hx])]
  exact ⟨tail, rfl⟩

namespace IsTernary

theorem prefix_trimStart_condition {x : Char} {word : List Char} (hx : isBlank x = false)
    (hw : '?' ∉ x :: word) (h : x :: word <+: ternaryTag condition yes no) :
    x :: word <+: trimStart condition :=
  prefix_trimStart hx (prefix_of_prefix_append hw h)

theorem not_hash_prefix (h : IsTernary condition yes no) (word : List Char) :
    ¬ '#' :: word <+: ternaryTag condition yes no := fun hp =>
  h.not_hash (prefix_trimStart_condition (by decide) (by decide)
    ((show ['#'] <+: '#' :: word from ⟨word, rfl⟩).trans hp))

theorem not_slash_prefix (h : IsTernary condition yes no) (word : List Char) :
    ¬ '/' :: word <+: ternaryTag condition yes no := fun hp =>
  h.not_slash (prefix_trimStart_condition (by decide) (by decide)
    ((show ['/'] <+: '/' :: word from ⟨word, rfl⟩).trans hp))

theorem not_else_prefix (h : IsTernary condition yes no) (word : List Char) :
    ¬ "else".toList ++ word <+: ternaryTag condition yes no := fun hp =>
  h.not_else (prefix_trimStart_condition (x := 'e') (by decide) (by decide)
    ((List.prefix_append "else".toList word).trans hp))

end IsTernary

theorem IsLoopKey.notMem (h : IsLoopKey key) {c : Char} (hc : Template.isWordChar c = false) :
    c ∉ key :=
  fun hm => by simp [h.isWordChar c hm] at hc

/-- Keys of loops are words, so they neither open nor close a tag. -/
theorem IsLoopKey.braceless (h : IsLoopKey key) : Braceless key :=
  ⟨h.notMem (by decide), h.notMem (by decide)⟩

/-! ## Loops -/

/-- No occurrence of the mark begins in the text, whatever stands behind it. -/
def Skips (mark p : List Char) : Prop :=
  ∀ rest, splitOnce? mark (p ++ rest) = (splitOnce? mark rest).map (Prod.map (p ++ ·) id)

namespace Skips

variable {mark : List Char}

theorem nil (mark : List Char) : Skips mark [] := fun rest => by
  cases h : splitOnce? mark rest <;> simp [h, Prod.map]

theorem append (hp : Skips mark p) (hq : Skips mark q) : Skips mark (p ++ q) := fun rest => by
  rw [List.append_assoc, hp, hq]
  cases splitOnce? mark rest <;> simp [Prod.map]

/-- Behind a part that a mark skips, the first mark is the one that follows. -/
theorem split (hp : Skips mark p) (rest : List Char) :
    splitOnce? mark (p ++ (mark ++ rest)) = some (p, rest) := by
  rw [hp, splitOnce?_self_append]
  simp

end Skips

theorem skips_endMark_of_braceless (hp : Braceless p) : Skips (inBraces ('/' :: key)) p :=
  fun _ => splitOnce?_append_of_notMem hp.1

theorem skips_endMark_tag (hk : '\x7d' ∉ key) (ht : Braceless tag) (hne : tag ≠ '/' :: key) :
    Skips (inBraces ('/' :: key)) (inBraces tag) := fun rest => by
  have hslash : '\x7d' ∉ '/' :: key := by simp [hk]
  rw [show inBraces ('/' :: key) = openBraces ++ ('/' :: key ++ closeBraces) from
    List.append_assoc ..]
  exact splitOnce?_tag_append ht.1 fun hp => hne (eq_of_prefix_append hslash ht.2 hp).symm

mutual

/-- The end marker of a loop does not occur in an outline without loops of its key. -/
theorem Outline.skips_endMark (hk : IsLoopKey key) :
    ∀ {t : Outline}, t.WellFormed → key ∉ t.loopKeys → Skips (inBraces ('/' :: key)) t.write
  | .nothing, _, _ => .nil _
  | .both a b, h, hn => by
    rw [Outline.loopKeys, List.mem_append, not_or] at hn
    exact (Outline.skips_endMark hk h.1 hn.1).append (Outline.skips_endMark hk h.2 hn.2)
  | .run _, h, _ => skips_endMark_of_braceless h
  | .placeholder k, h, _ =>
    skips_endMark_tag hk.braceless.2 (IsKey.braceless h)
      fun e => IsKey.not_prefix h (c := '/') (by decide) [] ⟨key, by rw [e]; rfl⟩
  | .ternary _ _ _, h, _ =>
    skips_endMark_tag hk.braceless.2 (IsTernary.braceless h)
      fun e => IsTernary.not_slash_prefix h key (e ▸ List.prefix_refl _)
  | .loop k body, h, hn => by
    rw [Outline.loopKeys, List.mem_cons, not_or] at hn
    obtain ⟨hloop, -, hbody⟩ := h
    have hopen : Braceless ('#' :: k) := .append (s := ['#']) (by decide) hloop.braceless
    have hclose : Braceless ('/' :: k) := .append (s := ['/']) (by decide) hloop.braceless
    exact (skips_endMark_tag hk.braceless.2 hopen (by simp)).append
      ((Outline.skips_endMark hk hbody hn.2).append
        (skips_endMark_tag hk.braceless.2 hclose (by simpa using Ne.symm hn.1)))
  | .conditional condition body others, h, hn => by
    rw [Outline.loopKeys, List.mem_append, not_or] at hn
    obtain ⟨hc, hbody, hothers⟩ := h
    have hopen : Braceless (ifTag condition) :=
      .append (by decide) (.append (s := [' ']) (by decide) hc)
    exact (skips_endMark_tag hk.braceless.2 hopen (by simp [ifTag])).append
      ((Outline.skips_endMark hk hbody hn.1).append
        ((Others.skips_endMark hk hothers hn.2).append
          (skips_endMark_tag hk.braceless.2 (by decide)
            fun e => hk.ne_if (List.cons.inj e).2.symm)))

theorem Others.skips_endMark (hk : IsLoopKey key) :
    ∀ {o : Others}, o.WellFormed → key ∉ o.loopKeys → Skips (inBraces ('/' :: key)) o.write
  | .done, _, _ => .nil _
  | .otherwise body, h, hn =>
    (skips_endMark_tag hk.braceless.2 (by decide) (by simp)).append
      (Outline.skips_endMark hk h hn)
  | .elseif condition body others, h, hn => by
    rw [Others.loopKeys, List.mem_append, not_or] at hn
    obtain ⟨hc, hbody, hothers⟩ := h
    have hopen : Braceless (elseifTag condition) :=
      .append (by decide) (.append (s := [' ']) (by decide) hc)
    exact (skips_endMark_tag hk.braceless.2 hopen (by simp [elseifTag])).append
      ((Outline.skips_endMark hk hbody hn.1).append (Others.skips_endMark hk hothers hn.2))

end

/-- What was written as a loop is read as the same loop. -/
theorem readLoop?_write {body : Outline} (hk : IsLoopKey key) (hn : key ∉ body.loopKeys)
    (hb : body.WellFormed) (rest : List Char) :
    readLoop? (key ++ (closeBraces ++ (body.write ++ (inBraces ('/' :: key) ++ rest)))) =
      some (key, body.write, rest) := by
  have hword : ∀ c ∈ key, isWordChar c = true := hk.isWordChar
  have hclose (t : List Char) : (closeBraces ++ t).takeWhile isWordChar = [] := rfl
  have hclose' (t : List Char) :
      (closeBraces ++ t).dropWhile isWordChar = closeBraces ++ t := rfl
  simp only [readLoop?, List.takeWhile_append_of_pos hword, List.dropWhile_append_of_pos hword,
    hclose, hclose', List.append_nil, stripStart?_append,
    (Outline.skips_endMark hk hb hn).split rest]
  rw [if_neg (by simpa using hk.ne_nil)]

/-! ## Markers of branches -/

namespace BranchMarker

/-- A tag that begins with no word of a block is no branch marker. -/
theorem read_eq_other (hc : '\x7d' ∉ tag) (hhash : ¬ ['#'] <+: tag) (hslash : ¬ ['/'] <+: tag)
    (helseif : ∀ b, isBlank b = true → ¬ "elseif".toList ++ [b] <+: tag)
    (helse : tag ≠ "else".toList) (rest : List Char) :
    read (tag ++ (closeBraces ++ rest)) = other := by
  have hkeyword (word : List Char) :
      afterKeyword? ('#' :: word) (tag ++ (closeBraces ++ rest)) = none := by
    rw [afterKeyword?, stripStart?_eq_none_iff.2]
    exact fun hp => hhash (prefix_of_prefix_append (c := '\x7d') (by decide)
      ((List.prefix_append ['#'] word).trans hp))
  have hhashElse : stripStart? "#else\x7d\x7d".toList (tag ++ (closeBraces ++ rest)) = none :=
    stripStart?_eq_none_iff.2 fun hp => hhash (prefix_of_prefix_append (c := '\x7d') (by decide)
      ((List.prefix_append ['#'] "else\x7d\x7d".toList).trans hp))
  have hclosing : stripStart? "/if\x7d\x7d".toList (tag ++ (closeBraces ++ rest)) = none :=
    stripStart?_eq_none_iff.2 fun hp => hslash (prefix_of_prefix_append (c := '\x7d') (by decide)
      ((List.prefix_append ['/'] "if\x7d\x7d".toList).trans hp))
  have hotherwise : stripStart? "else\x7d\x7d".toList (tag ++ (closeBraces ++ rest)) = none :=
    stripStart?_eq_none_iff.2 fun hp => helse
      (eq_of_prefix_append (u := "else".toList) (v := ['\x7d']) (by decide) hc hp).symm
  have hbranch : afterKeyword? "elseif".toList (tag ++ (closeBraces ++ rest)) = none := by
    rw [afterKeyword?]
    split
    · next b behind hs =>
      refine if_neg fun hb => helseif b hb (prefix_of_prefix_append (c := '\x7d') ?_
        (⟨behind, ?_⟩ : _ <+: tag ++ (closeBraces ++ rest)))
      · have : b ≠ '\x7d' := by
          rintro rfl
          cases hb
        simp [this.symm]
      · rw [eq_append_of_stripStart? hs, List.append_assoc, List.singleton_append]
    · rfl
  rw [read, show "#if".toList = '#' :: "if".toList from rfl, hkeyword, hclosing, splitElseif?,
    hbranch, firstOf?, show "#elseif".toList = '#' :: "elseif".toList from rfl, hkeyword,
    splitElse?, hotherwise, firstOf?, hhashElse]

theorem read_key (h : IsKey key) (rest : List Char) :
    read (key ++ (closeBraces ++ rest)) = other := by
  refine read_eq_other h.braceless.2 (h.not_prefix (by decide) []) (h.not_prefix (by decide) [])
    (fun b hb hp => ?_) h.ne_else rest
  have hmem : b ∈ key := hp.subset (by simp)
  simp [isBlank_of_isKeyChar (h.isKeyChar b hmem)] at hb

theorem read_ternaryTag (h : IsTernary condition yes no) (rest : List Char) :
    read (ternaryTag condition yes no ++ (closeBraces ++ rest)) = other := by
  refine read_eq_other h.braceless.2 (h.not_hash_prefix []) (h.not_slash_prefix [])
    (fun b _ hp => h.not_else_prefix ['i', 'f', b] hp) (fun he => ?_) rest
  exact h.not_else_prefix [] ⟨[], by rw [he]; rfl⟩

theorem read_ifTag (condition rest : List Char) :
    read (ifTag condition ++ rest) = opening (' ' :: (condition ++ rest)) := by
  rw [read, afterKeyword?, ifTag, List.append_assoc, stripStart?_append]
  rfl

theorem read_endIf (rest : List Char) :
    read ("/if".toList ++ (closeBraces ++ rest)) = closing rest := by
  rfl

theorem read_elseifTag (condition rest : List Char) :
    read (elseifTag condition ++ rest) = elseif (' ' :: (condition ++ rest)) := by
  rfl

theorem read_else (rest : List Char) :
    read ("else".toList ++ (closeBraces ++ rest)) = otherwise rest := by
  rfl

end BranchMarker

/-! ## Branches -/

variable {depth : Nat} {elseSeen : Bool} {condition? : Option (List Char)}

/-- The branches from a marker on. -/
def branchesAt (depth : Nat) (elseSeen : Bool) (condition? : Option (List Char))
    (seen afterOpen : List Char) : Option Conditional :=
  let inside (rest : List Char) (depth : Nat) (read : List Char) :=
    splitBranches? depth elseSeen condition? (seen ++ read) rest
  match BranchMarker.read afterOpen with
  | .opening rest => inside rest (depth + 1) "\x7b\x7b#if".toList
  | .closing rest =>
    match depth with
    | 0 => some ⟨[⟨condition?, seen⟩], rest⟩
    | depth + 1 => inside rest depth "\x7b\x7b/if\x7d\x7d".toList
  | .elseif rest =>
    if depth = 0 ∧ !elseSeen then
      match splitOnce? closeBraces rest with
      | none => none
      | some (next, body) =>
        (splitBranches? 0 false (some next) [] body).map (Conditional.cons ⟨condition?, seen⟩)
    else inside afterOpen depth openBraces
  | .otherwise rest =>
    if depth = 0 ∧ !elseSeen then
      (splitBranches? 0 true none [] rest).map (Conditional.cons ⟨condition?, seen⟩)
    else inside afterOpen depth openBraces
  | .other => inside afterOpen depth openBraces

theorem splitBranches?_eq (text : List Char) :
    splitBranches? depth elseSeen condition? seen text =
      match splitOnce? openBraces text with
      | none => none
      | some (before, afterOpen) =>
        branchesAt depth elseSeen condition? (seen ++ before) afterOpen := by
  rw [splitBranches?.eq_def]
  split
  · next hs => rw [hs]
  · next before afterOpen hs =>
    simp only [hs, branchesAt]
    split
    · next hm => simp only [hm]
    · next hm => cases depth <;> simp [hm]
    · next hm =>
      simp only [hm]
      split
      · split
        · next hc => simp only [hc]
        · next hc => simp only [hc]
      · rfl
    · next hm => simp only [hm]
    · next hm => simp only [hm]

theorem splitBranches?_append (hp : '\x7b' ∉ p) (rest : List Char) :
    splitBranches? depth elseSeen condition? seen (p ++ rest) =
      splitBranches? depth elseSeen condition? (seen ++ p) rest := by
  have hsplit : splitOnce? openBraces (p ++ rest) =
      (splitOnce? openBraces rest).map (Prod.map (p ++ ·) id) := splitOnce?_append_of_notMem hp
  rw [splitBranches?_eq, splitBranches?_eq, hsplit]
  cases splitOnce? openBraces rest with
  | none => rfl
  | some found =>
    obtain ⟨before, afterOpen⟩ := found
    simp only [Option.map_some, Prod.map, id, List.append_assoc]

theorem splitBranches?_openBraces (afterOpen : List Char) :
    splitBranches? depth elseSeen condition? seen (openBraces ++ afterOpen) =
      branchesAt depth elseSeen condition? seen afterOpen := by
  rw [splitBranches?_eq, splitOnce?_self_append]
  simp only [List.append_nil]

/-- A conditional inside a branch is one level deeper. -/
theorem splitBranches?_ifTag (hc : Braceless condition) (rest : List Char) :
    splitBranches? depth elseSeen condition? seen (inBraces (ifTag condition) ++ rest) =
      splitBranches? (depth + 1) elseSeen condition? (seen ++ inBraces (ifTag condition)) rest := by
  have hrun : '\x7b' ∉ ' ' :: (condition ++ closeBraces) := by simp [hc.1, closeBraces]
  have hinner : splitBranches? (depth + 1) elseSeen condition? (seen ++ "\x7b\x7b#if".toList)
      (' ' :: (condition ++ closeBraces) ++ rest) = _ := splitBranches?_append hrun rest
  rw [inBraces_append, splitBranches?_openBraces, branchesAt, BranchMarker.read_ifTag]
  simpa [inBraces, ifTag, openBraces] using hinner

theorem splitBranches?_endIf_zero (rest : List Char) :
    splitBranches? 0 elseSeen condition? seen (inBraces "/if".toList ++ rest) =
      some ⟨[⟨condition?, seen⟩], rest⟩ := by
  rw [inBraces_append, splitBranches?_openBraces, branchesAt, BranchMarker.read_endIf]

theorem splitBranches?_endIf_succ (rest : List Char) :
    splitBranches? (depth + 1) elseSeen condition? seen (inBraces "/if".toList ++ rest) =
      splitBranches? depth elseSeen condition? (seen ++ inBraces "/if".toList) rest := by
  rw [inBraces_append, splitBranches?_openBraces, branchesAt, BranchMarker.read_endIf]
  rfl

theorem splitBranches?_elseifTag_zero (hc : Braceless condition) (rest : List Char) :
    splitBranches? 0 false condition? seen (inBraces (elseifTag condition) ++ rest) =
      (splitBranches? 0 false (some (' ' :: condition)) [] rest).map
        (Conditional.cons ⟨condition?, seen⟩) := by
  have hsplit : splitOnce? closeBraces (' ' :: (condition ++ (closeBraces ++ rest))) =
      some (' ' :: condition, rest) :=
    splitOnce?_append_mark (p := ' ' :: condition) (by simp [hc.2])
  rw [inBraces_append, splitBranches?_openBraces, branchesAt, BranchMarker.read_elseifTag]
  simp [hsplit]

/-- At the level of the conditional itself, the last branch begins behind this marker. -/
theorem splitBranches?_else_zero (rest : List Char) :
    splitBranches? 0 false condition? seen (inBraces "else".toList ++ rest) =
      (splitBranches? 0 true none [] rest).map (Conditional.cons ⟨condition?, seen⟩) := by
  rw [inBraces_append, splitBranches?_openBraces, branchesAt, BranchMarker.read_else]
  rfl

/-- The text belongs to the branch in which it stands, with `depth` conditionals open. -/
def StaysInBranch (depth : Nat) (p : List Char) : Prop :=
  ∀ elseSeen condition? seen rest,
    splitBranches? depth elseSeen condition? seen (p ++ rest) =
      splitBranches? depth elseSeen condition? (seen ++ p) rest

namespace StaysInBranch

theorem nil (depth : Nat) : StaysInBranch depth [] := fun _ _ _ _ => by simp

theorem append (hp : StaysInBranch depth p) (hq : StaysInBranch depth q) :
    StaysInBranch depth (p ++ q) := fun _ _ _ _ => by
  rw [List.append_assoc, hp, hq, List.append_assoc]

theorem run (hp : '\x7b' ∉ p) : StaysInBranch depth p := fun _ _ _ rest =>
  splitBranches?_append hp rest

/-- A tag stays in the branch if its marker changes nothing there. -/
theorem of_tag (ht : '\x7b' ∉ tag)
    (h : ∀ elseSeen condition? seen rest,
      branchesAt depth elseSeen condition? seen (tag ++ (closeBraces ++ rest)) =
        splitBranches? depth elseSeen condition? (seen ++ openBraces)
          (tag ++ (closeBraces ++ rest))) :
    StaysInBranch depth (inBraces tag) := fun _ _ _ rest => by
  have hrun : '\x7b' ∉ tag ++ closeBraces := by simp [ht, closeBraces]
  rw [inBraces_append, splitBranches?_openBraces, h, ← List.append_assoc tag,
    splitBranches?_append hrun, List.append_assoc, ← List.append_assoc openBraces]
  rfl

theorem other (ht : '\x7b' ∉ tag)
    (h : ∀ rest, BranchMarker.read (tag ++ (closeBraces ++ rest)) = .other) :
    StaysInBranch depth (inBraces tag) :=
  .of_tag ht fun _ _ _ rest => by rw [branchesAt, h]

theorem elseifTag (hc : Braceless condition) :
    StaysInBranch (depth + 1) (inBraces (elseifTag condition)) := by
  refine .of_tag ?_ fun _ _ _ rest => ?_
  · simp [Template.elseifTag, hc.1]
  · rw [branchesAt, BranchMarker.read_elseifTag]
    simp

theorem otherwise : StaysInBranch (depth + 1) (inBraces "else".toList) :=
  .of_tag (by decide) fun _ _ _ rest => by
    rw [branchesAt, BranchMarker.read_else]
    simp

end StaysInBranch

mutual

/-- A template without loops belongs to the branch in which it stands. -/
theorem Outline.staysInBranch (depth : Nat) :
    ∀ {t : Outline}, t.WellFormed → t.loopKeys = [] → StaysInBranch depth t.write
  | .nothing, _, _ => .nil depth
  | .both _ _, h, hn => by
    rw [Outline.loopKeys, List.append_eq_nil_iff] at hn
    exact (Outline.staysInBranch depth h.1 hn.1).append (Outline.staysInBranch depth h.2 hn.2)
  | .run _, h, _ => .run h.1
  | .placeholder _, h, _ => .other (IsKey.braceless h).1 (BranchMarker.read_key h)
  | .ternary _ _ _, h, _ => .other (IsTernary.braceless h).1 (BranchMarker.read_ternaryTag h)
  | .loop _ _, _, hn => by cases hn
  | .conditional condition body others, h, hn => fun _ _ _ _ => by
    rw [Outline.loopKeys, List.append_eq_nil_iff] at hn
    rw [Outline.write, List.append_assoc, splitBranches?_ifTag h.1, List.append_assoc,
      Outline.staysInBranch (depth + 1) h.2.1 hn.1, List.append_assoc others.write,
      Others.staysInBranch depth h.2.2 hn.2, splitBranches?_endIf_succ]
    simp only [List.append_assoc]

/-- Further branches of a conditional inside a branch belong to the branch. -/
theorem Others.staysInBranch (depth : Nat) :
    ∀ {o : Others}, o.WellFormed → o.loopKeys = [] → StaysInBranch (depth + 1) o.write
  | .done, _, _ => .nil _
  | .otherwise _, h, hn => .append .otherwise (Outline.staysInBranch (depth + 1) h hn)
  | .elseif _ _ _, h, hn => by
    rw [Others.loopKeys, List.append_eq_nil_iff] at hn
    exact .append (.elseifTag h.1) ((Outline.staysInBranch (depth + 1) h.2.1 hn.1).append
      (Others.staysInBranch depth h.2.2 hn.2))

end

/-- The branches that were written behind the first one. -/
def Others.branches : Others → List Branch
  | .done => []
  | .otherwise body => [⟨none, body.write⟩]
  | .elseif condition body others => ⟨some (' ' :: condition), body.write⟩ :: others.branches

/-- Outside of the conditionals inside, the branches are those that were written. -/
theorem splitBranches?_write (rest : List Char) : ∀ (others : Others) {body : Outline}
    {condition? : Option (List Char)}, body.WellFormed → body.loopKeys = [] →
    others.WellFormed → others.loopKeys = [] →
    splitBranches? 0 false condition? []
        (body.write ++ (others.write ++ (inBraces "/if".toList ++ rest))) =
      some ⟨⟨condition?, body.write⟩ :: others.branches, rest⟩
  | .done, body, condition?, hb, hbn, _, _ => by
    rw [Outline.staysInBranch 0 hb hbn]
    exact splitBranches?_endIf_zero rest
  | .otherwise last, body, condition?, hb, hbn, ho, hon => by
    rw [Others.write, Outline.staysInBranch 0 hb hbn, List.append_assoc, splitBranches?_else_zero,
      Outline.staysInBranch 0 ho hon, splitBranches?_endIf_zero]
    rfl
  | .elseif condition next others, body, condition?, hb, hbn, ho, hon => by
    rw [Others.loopKeys, List.append_eq_nil_iff] at hon
    rw [Others.write, Outline.staysInBranch 0 hb hbn, List.append_assoc,
      splitBranches?_elseifTag_zero ho.1, List.append_assoc,
      splitBranches?_write rest others ho.2.1 hon.1 ho.2.2 hon.2]
    rfl

/-- What was written as a conditional is read as the same conditional, with all of its branches. -/
theorem readConditional?_write {body : Outline} {others : Others} (hc : Braceless condition)
    (hb : body.WellFormed) (hbn : body.loopKeys = []) (ho : others.WellFormed)
    (hon : others.loopKeys = []) (rest : List Char) :
    readConditional? (' ' :: (condition ++ (closeBraces ++
        (body.write ++ (others.write ++ (inBraces "/if".toList ++ rest)))))) =
      some ⟨⟨some condition, body.write⟩ :: others.branches, rest⟩ := by
  have hsplit (t : List Char) : splitOnce? closeBraces (condition ++ (closeBraces ++ t)) =
      some (condition, t) := splitOnce?_append_mark hc.2
  rw [readConditional?, if_pos (by decide), hsplit]
  exact splitBranches?_write rest others hb hbn ho hon

end Template

end LiveMarkup
