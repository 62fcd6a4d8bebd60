import Mathlib.Data.List.Basic
import Mathlib.Data.List.Induction

/-!
# Runs of a machine against a specification

A machine `step` takes a state and an input to an output and a next state, or stops. A
specification `spec` is a total machine over its own states. A run of the machine conforms
when it does not stop, gives the outputs of the specification, and is related to it by
`P` in every state it reaches.

`run_conforms_iff` says that when a condition `G` on the specification's state and the next
input decides whether one step keeps an invariant `R` or breaks the conformance, a whole run
conforms exactly when every one of its steps meets `G`. `upholds_iff` says the same of a
property of all that a run has been given and has put out, without a specification.
-/

namespace Machine

variable {σ τ ι ω φ : Type}

/-- Run the machine on a list of inputs, collecting the outputs. -/
def run (step : σ → ι → Except φ (ω × σ)) : σ → List ι → Except φ (List ω × σ)
  | s, [] => .ok ([], s)
  | s, i :: is =>
    match step s i with
    | .error f => .error f
    | .ok (o, s') =>
      match run step s' is with
      | .error f => .error f
      | .ok (os, s'') => .ok (o :: os, s'')

/-- The outputs and the last state of a specification on a list of inputs. -/
def trace (spec : τ → ι → ω × τ) : τ → List ι → List ω × τ
  | t, [] => ([], t)
  | t, i :: is =>
    ((spec t i).1 :: (trace spec (spec t i).2 is).1, (trace spec (spec t i).2 is).2)

variable {step : σ → ι → Except φ (ω × σ)} {spec : τ → ι → ω × τ}

theorem run_cons {s s' : σ} {i : ι} {o : ω} (h : step s i = .ok (o, s')) (is : List ι) :
  run step s (i :: is) = (run step s' is).map (fun r => (o :: r.1, r.2))
  := by
  simp only [run, h]
  cases run step s' is with
  | error f => rfl
  | ok r => rfl

/-- A run that returns has a first step that returns, and the rest of it returns. -/
theorem run_cons_ok {s s'' : σ} {i : ι} {is : List ι} {os : List ω}
    (h : run step s (i :: is) = .ok (os, s'')) :
  ∃ o s' os', step s i = .ok (o, s') ∧ run step s' is = .ok (os', s'') ∧ os = o :: os'
  := by
  simp only [run] at h
  cases hstep : step s i with
  | error f => simp [hstep] at h
  | ok r =>
      obtain ⟨o, s'⟩ := r
      simp only [hstep] at h
      cases hrun : run step s' is with
      | error f => simp [hrun] at h
      | ok r =>
          obtain ⟨os', t⟩ := r
          simp only [hrun, Except.ok.injEq, Prod.mk.injEq] at h
          obtain ⟨rfl, rfl⟩ := h
          exact ⟨o, s', os', rfl, hrun, rfl⟩

/-- A run in two parts. -/
theorem run_append {s s' : σ} {is : List ι} {os : List ω} (h : run step s is = .ok (os, s'))
    (js : List ι) :
  run step s (is ++ js) = (run step s' js).map (fun r => (os ++ r.1, r.2))
  := by
  induction is generalizing s os with
  | nil =>
      obtain ⟨rfl, rfl⟩ : [] = os ∧ s = s' := by simpa [run] using h
      cases hrun : run step s js <;> simp [hrun, Except.map]
  | cons i is ih =>
      obtain ⟨o, s₁, os', hs, hrun, rfl⟩ := run_cons_ok h
      rw [List.cons_append, run_cons hs, ih hrun]
      cases run step s' js <;> rfl

/-- A run in two parts that returns. -/
theorem run_append_ok {s s'' : σ} {is js : List ι} {os : List ω}
    (h : run step s (is ++ js) = .ok (os, s'')) :
  ∃ os₁ s' os₂, run step s is = .ok (os₁, s') ∧ run step s' js = .ok (os₂, s'') ∧
    os = os₁ ++ os₂
  := by
  induction is generalizing s os with
  | nil => exact ⟨[], s, os, rfl, h, rfl⟩
  | cons i is ih =>
      obtain ⟨o, s₁, os', hs, hrest, rfl⟩ := run_cons_ok h
      obtain ⟨os₁, s', os₂, hrun, hrun', rfl⟩ := ih hrest
      use o :: os₁, s', os₂
      rw [run_cons hs, hrun]
      exact ⟨rfl, hrun', rfl⟩

/-- The last step of a run that returns. -/
theorem run_concat_ok {s s'' : σ} {is : List ι} {i : ι} {os : List ω}
    (h : run step s (is ++ [i]) = .ok (os, s'')) :
  ∃ os' s' o, run step s is = .ok (os', s') ∧ step s' i = .ok (o, s'') ∧ os = os' ++ [o]
  := by
  obtain ⟨os₁, s', os₂, hrun, hlast, rfl⟩ := run_append_ok h
  obtain ⟨o, s₁, os₃, hstep, hnil, rfl⟩ := run_cons_ok hlast
  obtain ⟨rfl, rfl⟩ : [] = os₃ ∧ s₁ = s'' := by simpa [run] using hnil
  exact ⟨os₁, s', o, hrun, hstep, rfl⟩

theorem trace_append (t : τ) (is js : List ι) :
  trace spec t (is ++ js)
    = ((trace spec t is).1 ++ (trace spec (trace spec t is).2 js).1,
        (trace spec (trace spec t is).2 js).2)
  := by
  induction is generalizing t with
  | nil => rfl
  | cons i is ih => simp only [List.cons_append, trace, ih]

theorem length_trace (t : τ) (is : List ι) :
  (trace spec t is).1.length = is.length
  := by
  induction is generalizing t with
  | nil => rfl
  | cons i is ih => simp only [trace, List.length_cons, ih]

/-- The machine, run from `s` on any first part of `is`, does not stop, gives the outputs
of the specification run from `t`, and ends in a state related to the specification's. -/
def Conforms (step : σ → ι → Except φ (ω × σ)) (spec : τ → ι → ω × τ) (P : σ → τ → Prop)
    (s : σ) (t : τ) (is : List ι) : Prop :=
  ∀ pre, pre <+: is →
    ∃ s', run step s pre = .ok ((trace spec t pre).1, s') ∧ P s' (trace spec t pre).2

/-- Every step of the inputs `is`, taken by the specification from `t`, meets `G`. -/
def Meets (spec : τ → ι → ω × τ) (G : τ → ι → Prop) (t : τ) (is : List ι) : Prop :=
  ∀ pre i, pre ++ [i] <+: is → G (trace spec t pre).2 i

theorem meets_nil {G : τ → ι → Prop} {t : τ} :
  Meets spec G t []
  := by
  intro pre i hpre
  simp at hpre

theorem meets_cons {G : τ → ι → Prop} {t : τ} {i : ι} {is : List ι} :
  Meets spec G t (i :: is) ↔ G t i ∧ Meets spec G (spec t i).2 is
  := by
  constructor
  · intro h
    constructor
    · apply h [] i
      simp
    · intro pre j hpre
      apply h (i :: pre) j
      simpa using hpre
  · rintro ⟨hi, h⟩ pre j hpre
    cases pre with
    | nil =>
        obtain ⟨rfl, -⟩ := List.cons_prefix_cons.mp hpre
        apply hi
    | cons k pre =>
        obtain ⟨rfl, htail⟩ := List.cons_prefix_cons.mp hpre
        apply h pre j htail

theorem conforms_cons {P : σ → τ → Prop} {s : σ} {t : τ} {i : ι} {is : List ι} :
  Conforms step spec P s t (i :: is) ↔
    P s t ∧ ∃ s', step s i = .ok ((spec t i).1, s') ∧ Conforms step spec P s' (spec t i).2 is
  := by
  constructor
  · intro h
    obtain ⟨s₀, hs₀, hP⟩ := h [] (by simp)
    obtain rfl : s = s₀ := by
      simp only [run, Except.ok.injEq, Prod.mk.injEq] at hs₀
      apply hs₀.2
    use hP
    obtain ⟨s₁, hs₁, -⟩ := h [i] (by simp)
    obtain ⟨o, s', os, hstep, -, ho⟩ := run_cons_ok hs₁
    obtain ⟨rfl, -⟩ := List.cons.inj ho
    use s', hstep
    intro pre hpre
    obtain ⟨s₂, hs₂, hP₂⟩ := h (i :: pre) (by simpa using hpre)
    obtain ⟨o, s'', os, hstep', hrun, ho⟩ := run_cons_ok hs₂
    rw [hstep] at hstep'
    cases hstep'
    obtain ⟨-, rfl⟩ := List.cons.inj ho
    exact ⟨s₂, hrun, hP₂⟩
  · rintro ⟨hP, s', hstep, h⟩ pre hpre
    cases pre with
    | nil => exact ⟨s, rfl, hP⟩
    | cons j pre =>
        obtain ⟨rfl, htail⟩ := List.cons_prefix_cons.mp hpre
        obtain ⟨s₂, hrun, hP₂⟩ := h pre htail
        use s₂
        constructor
        · rw [run_cons hstep, hrun]
          rfl
        · apply hP₂

/-- When `G` decides, under the invariant `R`, whether a step conforms and keeps the
invariant or does not conform, a run from related states conforms exactly when every one of
its steps meets `G`. -/
theorem run_conforms_iff {P R : σ → τ → Prop} {G : τ → ι → Prop}
    (hP : ∀ s t, R s t → P s t)
    (hgood : ∀ s t i, R s t → G t i →
      ∃ s', step s i = .ok ((spec t i).1, s') ∧ R s' (spec t i).2)
    (hbad : ∀ s t i s', R s t → ¬ G t i → step s i = .ok ((spec t i).1, s') →
      ¬ P s' (spec t i).2)
    {s : σ} {t : τ} (hR : R s t) (is : List ι) :
  Conforms step spec P s t is ↔ Meets spec G t is
  := by
  induction is generalizing s t with
  | nil =>
      constructor
      · intro _
        apply meets_nil
      · intro _ pre hpre
        obtain rfl : pre = [] := by simpa using hpre
        exact ⟨s, rfl, hP s t hR⟩
  | cons i is ih =>
      rw [conforms_cons, meets_cons]
      constructor
      · rintro ⟨-, s', hstep, h⟩
        have hG : G t i := by
          by_contra hG
          apply hbad s t i s' hR hG hstep
          obtain ⟨s₀, hs₀, hP'⟩ := h [] (by simp)
          obtain rfl : s' = s₀ := by
            simp only [run, Except.ok.injEq, Prod.mk.injEq] at hs₀
            apply hs₀.2
          apply hP'
        use hG
        obtain ⟨s₁, hstep₁, hR₁⟩ := hgood s t i hR hG
        rw [hstep] at hstep₁
        cases hstep₁
        apply (ih hR₁).mp h
      · rintro ⟨hG, hrest⟩
        obtain ⟨s', hstep, hR'⟩ := hgood s t i hR hG
        use hP s t hR, s', hstep
        apply (ih hR').mpr hrest

/-- When every step that meets `G` and returns gives the specified output and keeps the
invariant `R`, so does every run that returns and whose steps all meet `G`. -/
theorem run_invariant {R : σ → τ → Prop} {G : τ → ι → Prop}
    (hstep : ∀ s t i o s', R s t → G t i → step s i = .ok (o, s') →
      o = (spec t i).1 ∧ R s' (spec t i).2)
    {s : σ} {t : τ} (hR : R s t) {is : List ι} (hG : Meets spec G t is)
    {os : List ω} {s' : σ} (hrun : run step s is = .ok (os, s')) :
  os = (trace spec t is).1 ∧ R s' (trace spec t is).2
  := by
  induction is generalizing s t os with
  | nil =>
      simp only [run, Except.ok.injEq, Prod.mk.injEq] at hrun
      obtain ⟨rfl, rfl⟩ := hrun
      exact ⟨rfl, hR⟩
  | cons i is ih =>
      obtain ⟨hi, hrest⟩ := meets_cons.mp hG
      obtain ⟨o, s₁, os', hs, hrun', rfl⟩ := run_cons_ok hrun
      obtain ⟨rfl, hR₁⟩ := hstep s t i o s₁ hR hi hs
      obtain ⟨rfl, hR'⟩ := ih hR₁ hrest hrun'
      exact ⟨rfl, hR'⟩

/-! ### Conditions on the states of the machine -/

/-- Every step of the inputs `is` that the machine comes to, from `s` on, meets `G`. -/
def Throughout (step : σ → ι → Except φ (ω × σ)) (G : σ → ι → Prop) (s : σ) (is : List ι) :
    Prop :=
  ∀ pre i, pre ++ [i] <+: is → ∀ os s', run step s pre = .ok (os, s') → G s' i

theorem throughout_nil {G : σ → ι → Prop} {s : σ} :
  Throughout step G s []
  := by
  intro pre i hpre
  simp at hpre

theorem throughout_cons {G : σ → ι → Prop} {s : σ} {i : ι} {is : List ι} :
  Throughout step G s (i :: is) ↔
    G s i ∧ ∀ o s', step s i = .ok (o, s') → Throughout step G s' is
  := by
  constructor
  · intro h
    constructor
    · apply h [] i (by simp) [] s rfl
    · intro o s' hs pre j hpre os s'' hrun
      apply h (i :: pre) j (by simpa using hpre) (o :: os)
      rw [run_cons hs, hrun]
      rfl
  · rintro ⟨hi, h⟩ pre j hpre os s' hrun
    cases pre with
    | nil =>
        obtain ⟨rfl, -⟩ := List.cons_prefix_cons.mp hpre
        obtain ⟨-, rfl⟩ : [] = os ∧ s = s' := by simpa [run] using hrun
        apply hi
    | cons k pre =>
        obtain ⟨rfl, htail⟩ := List.cons_prefix_cons.mp hpre
        obtain ⟨o, s₁, os', hs, hrun', -⟩ := run_cons_ok hrun
        apply h o s₁ hs pre j htail os' s' hrun'

/-- A condition on a step that is taken, and on those after it. -/
theorem Throughout.cons {G : σ → ι → Prop} {s s' : σ} {i : ι} {is : List ι} {o : ω} (hi : G s i)
    (hs : step s i = .ok (o, s')) (h : Throughout step G s' is) :
  Throughout step G s (i :: is)
  := by
  refine throughout_cons.mpr ⟨hi, fun o₁ s₁ hs₁ => ?_⟩
  rw [hs] at hs₁
  cases hs₁
  exact h

theorem Throughout.of_prefix {G : σ → ι → Prop} {s : σ} {is js : List ι}
    (h : Throughout step G s is) (hjs : js <+: is) :
  Throughout step G s js
  := fun pre i hpre => h pre i (hpre.trans hjs)

/-- A condition on the inputs alone. -/
theorem throughout_of_forall {G : ι → Prop} {s : σ} {is : List ι} (h : ∀ i ∈ is, G i) :
  Throughout step (fun _ => G) s is
  := by
  intro pre i hpre _ _ _
  apply h i
  apply hpre.subset
  simp

/-- An invariant that every step meeting `G` keeps holds after a run of such steps. -/
theorem Throughout.run_invariant {R : σ → Prop} {G : σ → ι → Prop}
    (hstep : ∀ s i o s', R s → G s i → step s i = .ok (o, s') → R s')
    {s : σ} (hR : R s) {is : List ι} (hG : Throughout step G s is) {os : List ω} {s' : σ}
    (hrun : run step s is = .ok (os, s')) :
  R s'
  := by
  induction is generalizing s os with
  | nil =>
      simp only [run, Except.ok.injEq, Prod.mk.injEq] at hrun
      obtain ⟨-, rfl⟩ := hrun
      apply hR
  | cons i is ih =>
      obtain ⟨o, s₁, os', hs, hrun', -⟩ := run_cons_ok hrun
      obtain ⟨hi, hrest⟩ := throughout_cons.mp hG
      apply ih (hstep s i o s₁ hR hi hs) (hrest o s₁ hs) hrun'

/-- The machine, run from `s` on any first part of `is`, does not stop, and what it has been
given, what it has put out and its state satisfy `Q`. -/
def Upholds (step : σ → ι → Except φ (ω × σ)) (Q : List ι → List ω → σ → Prop) (s : σ)
    (is : List ι) : Prop :=
  ∀ pre, pre <+: is → ∃ os s', run step s pre = .ok (os, s') ∧ Q pre os s'

theorem throughout_concat {G : σ → ι → Prop} {s s' : σ} {is : List ι} {i : ι} {os : List ω}
    (hrun : run step s is = .ok (os, s')) :
  Throughout step G s (is ++ [i]) ↔ Throughout step G s is ∧ G s' i
  := by
  constructor
  · intro h
    use h.of_prefix (List.prefix_append _ _)
    apply h is i (List.prefix_refl _) os s' hrun
  · rintro ⟨hearlier, hi⟩ pre j hpre os' s'' hrun'
    rcases List.prefix_concat_iff.mp hpre with heq | hpre
    · obtain ⟨rfl, hj⟩ := List.append_inj' heq rfl
      obtain rfl := List.singleton_inj.mp hj
      rw [hrun] at hrun'
      cases hrun'
      exact hi
    · apply hearlier pre j hpre os' s'' hrun'

section

variable {P : List ι → List ω → σ → Prop} {G : σ → ι → Prop} {s : σ} {is : List ι}

/-- A run whose steps all meet `G` does not stop when such a step does not and keeps `P`. -/
theorem Throughout.run_ok (hstart : P [] [] s)
    (hgood : ∀ is os s' i, P is os s' → G s' i →
      ∃ o s'', step s' i = .ok (o, s'') ∧ P (is ++ [i]) (os ++ [o]) s'')
    (h : Throughout step G s is) :
  ∃ os s', run step s is = .ok (os, s') ∧ P is os s'
  := by
  induction is using List.reverseRecOn with
  | nil => exact ⟨[], s, rfl, hstart⟩
  | append_singleton is i ih =>
      obtain ⟨os, s', hrun, hP⟩ := ih (h.of_prefix (List.prefix_append _ _))
      obtain ⟨o, s'', hs, hP'⟩ := hgood is os s' i hP ((throughout_concat hrun).mp h).2
      use os ++ [o], s''
      rw [run_append hrun, run_cons hs]
      exact ⟨rfl, hP'⟩

/-- When `G` decides, under the invariant `P`, whether a step keeps the invariant or breaks
`Q`, a run upholds `Q` exactly when all its steps meet `G`. -/
theorem upholds_iff {Q : List ι → List ω → σ → Prop} (hstart : P [] [] s)
    (hPQ : ∀ is os s', P is os s' → Q is os s')
    (hgood : ∀ is os s' i, P is os s' → G s' i →
      ∃ o s'', step s' i = .ok (o, s'') ∧ P (is ++ [i]) (os ++ [o]) s'')
    (hbad : ∀ is os s' i o s'', P is os s' → ¬ G s' i → step s' i = .ok (o, s'') →
      ¬ Q (is ++ [i]) (os ++ [o]) s'') :
  Upholds step Q s is ↔ Throughout step G s is
  := by
  constructor
  · intro h
    induction is using List.reverseRecOn with
    | nil => apply throughout_nil
    | append_singleton is i ih =>
        have hearlier := ih (fun pre hpre => h pre (hpre.trans (List.prefix_append _ _)))
        obtain ⟨os, s', hrun, hP⟩ := hearlier.run_ok hstart hgood
        rw [throughout_concat hrun]
        use hearlier
        by_contra hG
        obtain ⟨os', s'', hrun', hQ⟩ := h (is ++ [i]) (List.prefix_refl _)
        obtain ⟨os₁, s₁, o, hrun₁, hs, rfl⟩ := run_concat_ok hrun'
        rw [hrun] at hrun₁
        cases hrun₁
        exact hbad is os s' i o s'' hP hG hs hQ
  · intro h pre hpre
    obtain ⟨os, s', hrun, hP⟩ := (h.of_prefix hpre).run_ok hstart hgood
    exact ⟨os, s', hrun, hPQ pre os s' hP⟩

/-- When a step that does not meet `G` is taken and leads to where `Q` does not hold, `Q` holds
wherever the run comes to exactly when all its steps meet `G`. -/
theorem throughout_iff {R Q : σ → Prop} (hstart : R s) (hRQ : ∀ s', R s' → Q s')
    (hgood : ∀ s' i o s'', R s' → G s' i → step s' i = .ok (o, s'') → R s'')
    (hbad : ∀ s' i, R s' → ¬ G s' i → ∃ o s'', step s' i = .ok (o, s'') ∧ ¬ Q s'') :
  (∀ pre os s', pre <+: is → run step s pre = .ok (os, s') → Q s') ↔ Throughout step G s is
  := by
  constructor
  · intro h
    induction is using List.reverseRecOn with
    | nil => apply throughout_nil
    | append_singleton is i ih =>
        have hearlier := ih (fun pre os s' hpre =>
          h pre os s' (hpre.trans (List.prefix_append _ _)))
        intro pre j hpre os s' hrun
        rcases List.prefix_concat_iff.mp hpre with heq | hpre
        · by_contra hG
          have hpre' : pre <+: is := (List.append_inj' heq rfl).1 ▸ List.prefix_refl _
          have hR := (hearlier.of_prefix hpre').run_invariant hgood hstart hrun
          obtain ⟨o, s'', hs, hQ⟩ := hbad s' j hR hG
          apply hQ
          apply h (pre ++ [j]) (os ++ [o]) s'' hpre
          rw [run_append hrun, run_cons hs]
          rfl
        · apply hearlier pre j hpre os s' hrun
  · intro h pre os s' hpre hrun
    exact hRQ s' ((h.of_prefix hpre).run_invariant hgood hstart hrun)

end

end Machine
