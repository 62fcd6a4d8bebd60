import CcController.Lib.Reader
import Mathlib.Data.Fintype.EquivFin
import Mathlib.Order.WellFounded

/-!
# Programs that end

`Ends` says that a program returns, whatever it returns. For a loop this splits in two: every
round it comes to ends, and it comes to a last round.

A round leads to one state at most, so whether there is a last round is a question about walks
along a relation that is a partial function. On finitely many states there is one unless the
walk comes back to a state (`comesToEnd_iff_no_cycle`). On infinitely many there is one when
every step moves up and the walk stays below a bound (`comesToEnd_of_bounded`).
-/

open Relation

/-! ### Walks along a relation -/

section

variable {σ : Type} {R : σ → σ → Prop} {s c e : σ}

/-- The walk from `s` along the relation comes to a state from which nothing follows. -/
def ComesToEnd (R : σ → σ → Prop) (s : σ) : Prop :=
  ∃ e, ReflTransGen R s e ∧ ∀ s', ¬ R e s'

/-- From the end of a walk one stays there. -/
theorem eq_of_reflTransGen_end (hend : ∀ s', ¬ R e s') (h : ReflTransGen R e c) :
  c = e
  := by
  cases h.cases_head with
  | inl heq => exact heq.symm
  | inr h =>
      obtain ⟨s', hstep, -⟩ := h
      exact absurd hstep (hend s')

/-- All states on the way come before the end of the walk. -/
theorem reflTransGen_end (hR : Relator.RightUnique R) (he : ReflTransGen R s e)
    (hend : ∀ s', ¬ R e s') (hc : ReflTransGen R s c) :
  ReflTransGen R c e
  := by
  rcases ReflTransGen.total_of_right_unique hR hc he with h | h
  · exact h
  · rw [eq_of_reflTransGen_end hend h]

/-- What follows a state that the walk comes back to leads back to it. -/
theorem reflTransGen_back (hR : Relator.RightUnique R) (hcycle : TransGen R c c)
    (h : ReflTransGen R c s) :
  ReflTransGen R s c
  := by
  induction h with
  | refl => exact .refl
  | tail _ hstep ih =>
      obtain ⟨s', hstep', hback⟩ := TransGen.head'_iff.mp (hcycle.trans_right ih)
      rw [hR hstep hstep']
      exact hback

/-- A walk that comes back to a state has no end. -/
theorem not_comesToEnd_of_cycle (hR : Relator.RightUnique R) (hc : ReflTransGen R s c)
    (hcycle : TransGen R c c) :
  ¬ ComesToEnd R s
  := by
  rintro ⟨e, he, hend⟩
  have hback := reflTransGen_back hR hcycle (reflTransGen_end hR he hend hc)
  obtain ⟨s', hstep, -⟩ := TransGen.head'_iff.mp (hcycle.trans_right hback)
  exact hend s' hstep

/-- A walk that comes to a kind of states that it never leaves, and always goes on from, has no
end. -/
theorem not_comesToEnd_of_stays {P : σ → Prop} (hR : Relator.RightUnique R)
    (hstay : ∀ x, P x → ∃ y, R x y ∧ P y) (hc : ReflTransGen R s c) (h : P c) :
  ¬ ComesToEnd R s
  := by
  rintro ⟨e, he, hend⟩
  have hP : ∀ x, ReflTransGen R c x → P x := by
    intro x hx
    induction hx with
    | refl => exact h
    | tail _ hstep ih =>
        obtain ⟨y, hy, hPy⟩ := hstay _ ih
        rw [hR hstep hy]
        exact hPy
  obtain ⟨y, hy, -⟩ := hstay e (hP e (reflTransGen_end hR he hend hc))
  exact hend y hy

/-- On finitely many states a walk has an end unless it comes back to a state. -/
theorem comesToEnd_iff_no_cycle [Finite σ] (hR : Relator.RightUnique R) :
  ComesToEnd R s ↔ ¬ ∃ c, ReflTransGen R s c ∧ TransGen R c c
  := by
  constructor
  · rintro hends ⟨c, hc, hcycle⟩
    exact not_comesToEnd_of_cycle hR hc hcycle hends
  · intro hno
    let After (a b : { c // ReflTransGen R s c }) : Prop := TransGen R b.1 a.1
    have : IsTrans _ After := ⟨fun _ _ _ hab hbc => hbc.trans hab⟩
    have : Std.Irrefl After := ⟨fun a ha => hno ⟨a.1, a.2, ha⟩⟩
    have hwf : WellFounded After := Finite.wellFounded_of_trans_of_irrefl After
    obtain ⟨e, -, hlast⟩ := hwf.has_min Set.univ ⟨⟨s, .refl⟩, trivial⟩
    use e.1, e.2
    intro s' hstep
    exact hlast ⟨s', e.2.tail hstep⟩ trivial (.single hstep)

/-- A walk all of whose steps move up has an end when it stays below a bound. -/
theorem comesToEnd_of_bounded {position : σ → ℕ} {bound : ℕ}
    (hup : ∀ c c', ReflTransGen R s c → R c c' → position c < position c')
    (hbound : ∀ c, ReflTransGen R s c → position c ≤ bound) :
  ComesToEnd R s
  := by
  -- the induction is on what is left up to the bound
  have hfrom : ∀ k c, ReflTransGen R s c → bound - position c = k →
      ∃ e, ReflTransGen R s e ∧ ∀ s', ¬ R e s' := by
    intro k
    induction k using Nat.strong_induction_on with
    | _ k ih =>
        intro c hc hk
        by_cases hlast : ∀ s', ¬ R c s'
        · exact ⟨c, hc, hlast⟩
        · push Not at hlast
          obtain ⟨c', hstep⟩ := hlast
          have hlt := hup c c' hc hstep
          have hle := hbound c' (hc.tail hstep)
          apply ih (bound - position c') (by omega) c' (hc.tail hstep) rfl
  exact hfrom _ s .refl rfl

theorem position_le {position : σ → ℕ} (hle : ∀ c c', R c c' → position c ≤ position c')
    (h : ReflTransGen R s c) :
  position s ≤ position c
  := by
  induction h with
  | refl => exact Nat.le_refl _
  | tail _ hstep ih => exact Nat.le_trans ih (hle _ _ hstep)

/-- A walk that never moves down, and stays where it is once it does not move, has an end
exactly when it always moves and stays below a bound. -/
theorem comesToEnd_iff_of_position (hR : Relator.RightUnique R) {position : σ → ℕ}
    (hle : ∀ c c', R c c' → position c ≤ position c')
    (hstay : ∀ c c', R c c' → position c' = position c →
      ∃ c'', R c' c'' ∧ position c'' = position c') :
  ComesToEnd R s ↔
    (∀ c c', ReflTransGen R s c → R c c' → position c' ≠ position c) ∧
      ∃ bound, ∀ c, ReflTransGen R s c → position c ≤ bound
  := by
  constructor
  · rintro ⟨e, he, hend⟩
    constructor
    · intro c c' hc hstep heq
      have hstays : ∀ x, (∃ y, R x y ∧ position y = position x) →
          ∃ y, R x y ∧ ∃ z, R y z ∧ position z = position y := by
        rintro x ⟨y, hy, hyeq⟩
        exact ⟨y, hy, hstay x y hy hyeq⟩
      exact not_comesToEnd_of_stays hR hstays hc ⟨c', hstep, heq⟩ ⟨e, he, hend⟩
    · use position e
      intro c hc
      apply position_le hle (reflTransGen_end hR he hend hc)
  · rintro ⟨hmoves, bound, hbound⟩
    apply comesToEnd_of_bounded _ hbound
    intro c c' hc hstep
    have hne := hmoves c c' hc hstep
    have hup := hle c c' hstep
    omega

end

namespace Reader

variable {ι β α γ σ : Type} {m : Reader ι β α} {mem : ι → β}

/-! ### Ending -/

/-- The program returns, given enough fuel. -/
def Ends (m : Reader ι β α) (mem : ι → β) : Prop :=
  ∃ a, m.Returns mem a

@[simp]
theorem ends_pure {a : α} :
  (pure a : Reader ι β α).Ends mem
  := ⟨a, returns_pure.mpr rfl⟩

theorem ends_bind {f : α → Reader ι β γ} :
  (m >>= f).Ends mem ↔ ∃ a, m.Returns mem a ∧ (f a).Ends mem
  := by
  constructor
  · rintro ⟨b, hb⟩
    obtain ⟨a, ha, hfa⟩ := returns_bind.mp hb
    exact ⟨a, ha, b, hfa⟩
  · rintro ⟨a, ha, b, hfa⟩
    exact ⟨b, returns_bind.mpr ⟨a, ha, hfa⟩⟩

/-- When what follows ends in any case, the first part decides. -/
theorem ends_bind_of_forall {f : α → Reader ι β γ} (hf : ∀ a, (f a).Ends mem) :
  (m >>= f).Ends mem ↔ m.Ends mem
  := by
  rw [ends_bind]
  constructor
  · rintro ⟨a, ha, -⟩
    exact ⟨a, ha⟩
  · rintro ⟨a, ha⟩
    exact ⟨a, ha, hf a⟩

theorem ends_ite {c : Prop} [Decidable c] {m' : Reader ι β α} :
  (if c then m else m').Ends mem ↔ (c → m.Ends mem) ∧ (¬ c → m'.Ends mem)
  := by
  split
  · next hc => simp [hc]
  · next hc => simp [hc]

theorem ends_via {ι' β' : Type} {place : ι → ι'} {value : ι → β' → β} {mem' : ι' → β'} :
  (m.via place value).Ends mem' ↔ m.Ends (view place value mem')
  := Iff.rfl

/-! ### Loops -/

variable {step : σ → Reader ι β (α ⊕ σ)} {s : σ}

theorem round_rightUnique :
  Relator.RightUnique (Round step mem)
  := by
  intro s₁ s₂ s₃ h₂ h₃
  apply Sum.inr.inj (h₂.unique h₃)

/-- A loop ends exactly when every round it comes to ends and it comes to a last one. -/
theorem ends_loop :
  (loop step s).Ends mem ↔
    (∀ s', Visits step mem s s' → (step s').Ends mem) ∧ ComesToEnd (Round step mem) s
  := by
  constructor
  · rintro ⟨a, ha⟩
    obtain ⟨e, hvisits, hreturns⟩ := returns_loop.mp ha
    have hlast : ∀ s', ¬ Round step mem e s' := by
      intro s' hround
      cases hreturns.unique hround
    refine ⟨fun s' hs' => ?_, e, hvisits, hlast⟩
    cases (reflTransGen_end round_rightUnique hvisits hlast hs').cases_head with
    | inl heq =>
        rw [heq]
        exact ⟨_, hreturns⟩
    | inr h =>
        obtain ⟨s'', hround, -⟩ := h
        exact ⟨_, hround⟩
  · rintro ⟨hrounds, e, hvisits, hlast⟩
    obtain ⟨r, hr⟩ := hrounds e hvisits
    cases r with
    | inl a => exact ⟨a, returns_loop.mpr ⟨e, hvisits, hr⟩⟩
    | inr s' => exact absurd hr (hlast s')

/-- A loop ends and reads within `S` when each of its rounds does, keeps an invariant, and
moves a position up that the invariant bounds. -/
theorem loop_inside {S : ι → Prop} {Inv : σ → Prop} {position : σ → ℕ} {bound : ℕ}
    (hends : ∀ s, Inv s → (step s).Ends mem)
    (hround : ∀ s, Inv s → Within S (step s) mem
      (fun r => ∀ s', r = .inr s' → Inv s' ∧ position s < position s'))
    (hbound : ∀ s, Inv s → position s ≤ bound) (h : Inv s) :
  (loop step s).Ends mem ∧ ∀ i, (loop step s).Reads mem i → S i
  := by
  have hinv : ∀ t, Visits step mem s t → Inv t := by
    intro t hvisits
    induction hvisits with
    | refl => exact h
    | tail _ hnext ih => exact ((hround _ ih).2 _ hnext _ rfl).1
  constructor
  · apply ends_loop.mpr
    have hup : ∀ t t', Visits step mem s t → Round step mem t t' → position t < position t' :=
      fun t _ hvisits hnext => ((hround t (hinv t hvisits)).2 _ hnext _ rfl).2
    use fun t hvisits => hends t (hinv t hvisits)
    exact comesToEnd_of_bounded hup (fun t hvisits => hbound t (hinv t hvisits))
  · intro i hi
    obtain ⟨t, hvisits, hreads⟩ := reads_loop.mp hi
    exact (hround t (hinv t hvisits)).1 i hreads

end Reader
