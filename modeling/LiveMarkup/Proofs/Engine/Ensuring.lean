import LiveMarkup.Engine.World

/-!
# What runs ensure

`Run.Ensures P m Q` says of a run `m`: from a world with `P`, every result satisfies `Q`. Nothing is
said of a run that has no result. There is one rule for each way of putting runs together.
-/

namespace LiveMarkup

namespace Run

variable {σ α β : Type} {P P' : World σ → Prop} {Q Q' : α → World σ → Prop}
  {R : β → World σ → Prop} {m : Run σ α} {f : α → Run σ β} {w w' : World σ}

/-- From a world with `P`, every result satisfies `Q`. -/
def Ensures (P : World σ → Prop) (m : Run σ α) (Q : α → World σ → Prop) : Prop :=
  ∀ w a w', P w → m w = some (a, w') → Q a w'

/-- Every world with `P` is left with `P`. -/
def Keeps (P : World σ → Prop) (m : Run σ α) : Prop := Ensures P m fun _ => P

theorem bind_eq_some_iff {b : β} {w'' : World σ} :
    (m >>= f) w = some (b, w'') ↔ ∃ a w', m w = some (a, w') ∧ f a w' = some (b, w'') := by
  change (m w).bind (fun x => f x.1 x.2) = some (b, w'') ↔ _
  rw [Option.bind_eq_some_iff]
  exact ⟨fun ⟨⟨a, w'⟩, h, h'⟩ => ⟨a, w', h, h'⟩, fun ⟨a, w', h, h'⟩ => ⟨(a, w'), h, h'⟩⟩

namespace Ensures

/-- What a run ensures, the run that follows it may rely on. -/
theorem bind (h : Ensures P m Q) (h' : ∀ a, Ensures (Q a) (f a) R) : Ensures P (m >>= f) R := by
  intro w b w'' hp hb
  obtain ⟨a, w', ha, hb⟩ := bind_eq_some_iff.1 hb
  exact h' a w' b w'' (h w a w' hp ha) hb

/-- What is ensured from every world with `P` is ensured from one of them. -/
theorem here (h : Ensures P m Q) (hw : P w) : Ensures (· = w) m Q :=
  fun _ a w' he ha => h w a w' hw (he ▸ ha)

/-- A run may be followed from one fixed world. -/
theorem of_forall (h : ∀ w, P w → Ensures (· = w) m Q) : Ensures P m Q :=
  fun w a w' hp ha => h w hp w a w' rfl ha

theorem of_pure {a : α} (h : ∀ w, P w → Q a w) : Ensures P (pure a) Q := by
  intro w b w' hp hb
  cases hb
  exact h w hp

/-- A run that looks at the world goes on in the very world that it has seen. -/
theorem of_get {g : World σ → Run σ α} (h : ∀ w, P w → Ensures (· = w) (g w) Q) :
    Ensures P (get >>= g) Q :=
  fun w a w' hp ha => h w hp w a w' rfl ha

theorem of_modifyGet {g : World σ → α × World σ} (h : ∀ w, P w → Q (g w).1 (g w).2) :
    Ensures P (modifyGet g) Q := by
  intro w a w' hp ha
  obtain ⟨rfl, rfl⟩ := Prod.mk.inj (Option.some.inj ha)
  exact h w hp

theorem of_modify {g : World σ → World σ} {Q : Unit → World σ → Prop}
    (h : ∀ w, P w → Q () (g w)) : Ensures P (modify g) Q :=
  of_modifyGet h

theorem of_set {Q : Unit → World σ → Prop} (h : ∀ w, P w → Q () w') :
    Ensures P (MonadStateOf.set w') Q :=
  of_modifyGet (g := fun _ => ((), w')) h

/-- A run that does not return ensures anything. -/
theorem of_failure : Ensures P (failure : Run σ α) Q := fun _ _ _ _ h => nomatch h

theorem mono (h : Ensures P m Q) (hp : ∀ w, P' w → P w) (hq : ∀ a w, Q a w → Q' a w) :
    Ensures P' m Q' :=
  fun w a w' hw ha => hq a w' (h w a w' (hp w hw) ha)

end Ensures

end Run

end LiveMarkup
