/-
Machines that answer. A step function takes a state and an input and gives an answer and the next state; a run feeds
it a list of inputs and keeps the history, every input with the answer it got. Nothing here depends on what the
machine is.

- `run_inv`: a property of (history, state) that holds at the start and is kept by every step whose input meets the
  guard holds after every run whose steps all meet it.
- `run_sim`, `meets_sim`: two machines whose steps match, on the same inputs.
- `run_both`, `Halves.run`: a machine of two halves, with inputs for each.
-/
import Mathlib.Tactic

namespace Answering

variable {σ ι ω : Type*}

/-- feed the inputs one after another; the history holds every input with its answer -/
def run (step : σ → ι → ω × σ) (s : σ) : List ι → List (ι × ω) × σ
  | [] => ([], s)
  | i :: is => ((i, (step s i).1) :: (run step (step s i).2 is).1, (run step (step s i).2 is).2)

/-- every step of the run meets the guard, which may look at the history so far -/
def MeetsFrom (step : σ → ι → ω × σ) (guard : List (ι × ω) → σ → ι → Prop) (hist : List (ι × ω)) (s : σ) :
    List ι → Prop
  | [] => True
  | i :: is => guard hist s i ∧ MeetsFrom step guard (hist ++ [(i, (step s i).1)]) (step s i).2 is

/-- every step of a run from `s` meets the guard -/
def Meets (step : σ → ι → ω × σ) (guard : List (ι × ω) → σ → ι → Prop) (s : σ) (is : List ι) : Prop :=
  MeetsFrom step guard [] s is

instance decidableMeetsFrom (step : σ → ι → ω × σ) (guard : List (ι × ω) → σ → ι → Prop)
    [∀ h s i, Decidable (guard h s i)] : ∀ hist s is, Decidable (MeetsFrom step guard hist s is)
  | _, _, [] => inferInstanceAs (Decidable True)
  | _, _, _ :: _ => @instDecidableAnd _ _ _ (decidableMeetsFrom step guard _ _ _)

instance (step : σ → ι → ω × σ) (guard : List (ι × ω) → σ → ι → Prop) [∀ h s i, Decidable (guard h s i)] (s : σ)
    (is : List ι) : Decidable (Meets step guard s is) := decidableMeetsFrom step guard [] s is

@[simp] theorem run_nil (step : σ → ι → ω × σ) (s : σ) : run step s [] = ([], s) := rfl

/-- the inputs of the history are the inputs that were fed -/
theorem run_inputs (step : σ → ι → ω × σ) (s : σ) (is : List ι) : (run step s is).1.map Prod.fst = is := by
  induction is generalizing s with
  | nil => rfl
  | cons i is ih => simp only [run, List.map_cons, ih]

theorem run_inv_from {step : σ → ι → ω × σ} {guard : List (ι × ω) → σ → ι → Prop} {I : List (ι × ω) → σ → Prop}
    (hstep : ∀ h s i, I h s → guard h s i → I (h ++ [(i, (step s i).1)]) (step s i).2) (is : List ι) :
    ∀ (h : List (ι × ω)) (s : σ), I h s → MeetsFrom step guard h s is →
      I (h ++ (run step s is).1) (run step s is).2 := by
  induction is with
  | nil => intro h s hI _; simpa using hI
  | cons i is ih =>
    intro h s hI hm
    have := ih (h ++ [(i, (step s i).1)]) (step s i).2 (hstep h s i hI hm.1) hm.2
    simpa [run] using this

/-- **Run rule.** What holds at the start and is kept by every step that meets the guard holds after every run whose
steps all meet it. -/
theorem run_inv {step : σ → ι → ω × σ} {guard : List (ι × ω) → σ → ι → Prop} {I : List (ι × ω) → σ → Prop} {s : σ}
    (h0 : I [] s) (hstep : ∀ h s i, I h s → guard h s i → I (h ++ [(i, (step s i).1)]) (step s i).2) {is : List ι}
    (hm : Meets step guard s is) : I (run step s is).1 (run step s is).2 := by
  simpa using run_inv_from hstep is [] s h0 hm

theorem MeetsFrom.and {step : σ → ι → ω × σ} {guard guard' : List (ι × ω) → σ → ι → Prop} {hist : List (ι × ω)} {s : σ}
    {is : List ι} (h : MeetsFrom step guard hist s is) (h' : MeetsFrom step guard' hist s is) :
    MeetsFrom step (fun hist s i => guard hist s i ∧ guard' hist s i) hist s is := by
  induction is generalizing hist s with
  | nil => trivial
  | cons i is ih => exact ⟨⟨h.1, h'.1⟩, ih h.2 h'.2⟩

theorem Meets.and {step : σ → ι → ω × σ} {guard guard' : List (ι × ω) → σ → ι → Prop} {s : σ} {is : List ι}
    (h : Meets step guard s is) (h' : Meets step guard' s is) :
    Meets step (fun hist s i => guard hist s i ∧ guard' hist s i) s is :=
  MeetsFrom.and h h'

theorem meetsFrom_of_forall {step : σ → ι → ω × σ} {P : ι → Prop} {is : List ι} (h : ∀ i ∈ is, P i) :
    ∀ hist s, MeetsFrom step (fun _ _ i => P i) hist s is := by
  induction is with
  | nil => intro _ _; trivial
  | cons i is ih => intro _ _; exact ⟨h i List.mem_cons_self, ih (fun j hj => h j (List.mem_cons_of_mem _ hj)) _ _⟩

/-- the run rule for a guard that looks at the inputs only -/
theorem run_inv_of_inputs {step : σ → ι → ω × σ} {P : ι → Prop} {I : List (ι × ω) → σ → Prop} {s : σ} (h0 : I [] s)
    (hstep : ∀ h s i, I h s → P i → I (h ++ [(i, (step s i).1)]) (step s i).2) {is : List ι} (hP : ∀ i ∈ is, P i) :
    I (run step s is).1 (run step s is).2 :=
  run_inv h0 hstep (meetsFrom_of_forall hP [] s)

/-! ## Two machines -/

section TwoMachines

variable {τ ω' : Type*} {step : σ → ι → ω × σ} {step' : τ → ι → ω' × τ} {R : σ → τ → Prop} {A : ι → ω → ω' → Prop}

/-- the same inputs, with answers that correspond -/
def Correspond (A : ι → ω → ω' → Prop) : List (ι × ω) → List (ι × ω') → Prop :=
  List.Forall₂ fun x y => x.1 = y.1 ∧ A x.1 x.2 y.2

/-- **Simulation rule.** When every step of the one machine is matched by the other, so is every run. -/
theorem run_sim (hstep : ∀ s t i, R s t → A i (step s i).1 (step' t i).1 ∧ R (step s i).2 (step' t i).2) (is : List ι) :
    ∀ {s t}, R s t → Correspond A (run step s is).1 (run step' t is).1 ∧ R (run step s is).2 (run step' t is).2 := by
  induction is with
  | nil => exact fun hR => ⟨.nil, hR⟩
  | cons i is ih =>
    intro s t hR
    obtain ⟨ha, hR'⟩ := hstep s t i hR
    exact ⟨.cons ⟨rfl, ha⟩ (ih hR').1, (ih hR').2⟩

/-- a guard of the one machine that gives one of the other, along matching runs -/
theorem meets_sim (hstep : ∀ s t i, R s t → A i (step s i).1 (step' t i).1 ∧ R (step s i).2 (step' t i).2)
    {guard : List (ι × ω) → σ → ι → Prop} {G : List (ι × ω') → τ → ι → Prop}
    (hguard : ∀ h h' s t i, Correspond A h h' → R s t → guard h s i → G h' t i) (is : List ι) :
    ∀ {h h' s t}, Correspond A h h' → R s t → MeetsFrom step guard h s is → MeetsFrom step' G h' t is := by
  induction is with
  | nil => exact fun _ _ _ => trivial
  | cons i is ih =>
    intro h h' s t hc hR hm
    obtain ⟨ha, hR'⟩ := hstep s t i hR
    exact ⟨hguard h h' s t i hc hR hm.1, ih (List.rel_append hc (.cons ⟨rfl, ha⟩ .nil)) hR' hm.2⟩

end TwoMachines

/-! ## A machine of two halves -/

section Halves

variable {ι₁ ι₂ ω₁ ω₂ τ υ : Type*} {step₁ : σ → ι₁ → ω₁ × σ} {step₂ : σ → ι₂ → ω₂ × σ} {step₁' : τ → ι₁ → ω₁ × τ}
  {step₂' : υ → ι₂ → ω₂ × υ} {R : σ → τ → υ → Prop}

/-- inputs of two kinds -/
def both (step₁ : σ → ι₁ → ω₁ × σ) (step₂ : σ → ι₂ → ω₂ × σ) (s : σ) : ι₁ ⊕ ι₂ → (ω₁ ⊕ ω₂) × σ
  | .inl i => (.inl (step₁ s i).1, (step₁ s i).2)
  | .inr i => (.inr (step₂ s i).1, (step₂ s i).2)

def firsts (is : List (ι₁ ⊕ ι₂)) : List ι₁ := is.filterMap Sum.getLeft?

def seconds (is : List (ι₁ ⊕ ι₂)) : List ι₂ := is.filterMap Sum.getRight?

/-- the history of the one kind -/
def firstHist (hist : List ((ι₁ ⊕ ι₂) × (ω₁ ⊕ ω₂))) : List (ι₁ × ω₁) :=
  hist.filterMap fun
    | (.inl i, .inl a) => some (i, a)
    | _ => none

def secondHist (hist : List ((ι₁ ⊕ ι₂) × (ω₁ ⊕ ω₂))) : List (ι₂ × ω₂) :=
  hist.filterMap fun
    | (.inr i, .inr a) => some (i, a)
    | _ => none

/-- **Two halves.** When the inputs of each kind concern a half of their own, a run is a run of each half, however their
inputs interleave. -/
theorem run_both
    (h₁ : ∀ s t u i, R s t u → (step₁ s i).1 = (step₁' t i).1 ∧ R (step₁ s i).2 (step₁' t i).2 u)
    (h₂ : ∀ s t u i, R s t u → (step₂ s i).1 = (step₂' u i).1 ∧ R (step₂ s i).2 t (step₂' u i).2) (is : List (ι₁ ⊕ ι₂)) :
    ∀ {s t u}, R s t u →
      firstHist (run (both step₁ step₂) s is).1 = (run step₁' t (firsts is)).1 ∧
      secondHist (run (both step₁ step₂) s is).1 = (run step₂' u (seconds is)).1 ∧
      R (run (both step₁ step₂) s is).2 (run step₁' t (firsts is)).2 (run step₂' u (seconds is)).2 := by
  induction is with
  | nil => exact fun hR => ⟨rfl, rfl, hR⟩
  | cons i is ih =>
    intro s t u hR
    cases i with
    | inl i =>
      obtain ⟨ha, hR'⟩ := h₁ s t u i hR
      obtain ⟨hfirst, hsecond, hend⟩ := ih hR'
      refine ⟨?_, hsecond, hend⟩
      show (i, (step₁ s i).1) :: firstHist (run (both step₁ step₂) (step₁ s i).2 is).1 = _
      rw [hfirst, ha]
      rfl
    | inr i =>
      obtain ⟨ha, hR'⟩ := h₂ s t u i hR
      obtain ⟨hfirst, hsecond, hend⟩ := ih hR'
      refine ⟨hfirst, ?_, hend⟩
      show (i, (step₂ s i).1) :: secondHist (run (both step₁ step₂) (step₂ s i).2 is).1 = _
      rw [hsecond, ha]
      rfl

/-- `onto x s` is `s` with the second half of `x`; inputs of either kind concern their half alone -/
structure Halves (onto : σ → σ → σ) (step₁ : σ → ι₁ → ω₁ × σ) (step₂ : σ → ι₂ → ω₂ × σ) : Prop where
  self : ∀ s, onto s s = s
  onto_onto : ∀ x y s, onto x (onto y s) = onto x s
  onto_left : ∀ x y s, onto (onto x y) s = onto x s
  first : ∀ x s i, step₁ (onto x s) i = ((step₁ s i).1, onto x (step₁ s i).2)
  second : ∀ x s i, step₂ (onto x s) i = ((step₂ x i).1, onto (step₂ x i).2 s)

/-- **A machine of two halves.** A run is a run of each half. -/
theorem Halves.run {onto : σ → σ → σ} (h : Halves onto step₁ step₂) (s : σ) (is : List (ι₁ ⊕ ι₂)) :
    let r := Answering.run (both step₁ step₂) s is
    let r₁ := Answering.run step₁ s (firsts is)
    let r₂ := Answering.run step₂ s (seconds is)
    firstHist r.1 = r₁.1 ∧ secondHist r.1 = r₂.1 ∧ r₁.2 = onto r₁.2 r.2 ∧ r₂.2 = onto r.2 r₂.2 := by
  intro r r₁ r₂
  have hkeeps₁ : ∀ s i, onto s (step₁ s i).2 = (step₁ s i).2 := fun s i => by
    have hstep := congrArg Prod.snd (h.first s s i)
    rw [h.self] at hstep
    exact hstep.symm
  have hkeeps₂ : ∀ s i, onto (step₂ s i).2 s = (step₂ s i).2 := fun s i => by
    have hstep := congrArg Prod.snd (h.second s s i)
    rw [h.self] at hstep
    exact hstep.symm
  refine run_both (R := fun s t u => t = onto t s ∧ u = onto s u) ?_ ?_ is ⟨(h.self s).symm, (h.self s).symm⟩
  · rintro s t u i ⟨ht, hu⟩
    have hstep := h.first t s i
    rw [← ht] at hstep
    refine ⟨by rw [hstep], ?_, ?_⟩
    · rw [hstep, h.onto_left]
    · rw [← hkeeps₁ s i, h.onto_left]
      exact hu
  · rintro s t u i ⟨ht, hu⟩
    have hstep := h.second s u i
    rw [← hu] at hstep
    refine ⟨by rw [hstep], ?_, ?_⟩
    · rw [← hkeeps₂ s i, h.onto_onto]
      exact ht
    · rw [hstep, h.onto_onto]

end Halves

end Answering
