/-
Loops with a measure. The body of a loop looks at its state and either goes on with another state or leaves with a
result. A measure that falls on every round bounds the rounds, so the loop is a total function (`run`) that can still
be evaluated: it spends at most `measure + 1` rounds.

- `run_eq`: unfolding the loop by one round.
- `run_rule`: an invariant of the rounds that gives `Q` on leaving gives `Q` of the loop's result.
- `run_sim`: two loops whose rounds match.
- `rounds_run`: the loop really leaves, after some number of rounds, with that result.
-/
import Mathlib.Tactic

namespace Loop

variable {σ ρ : Type*}

/-- at most `n` rounds of the body; `none` when they were not enough to leave the loop -/
def rounds (body : σ → σ ⊕ ρ) : ℕ → σ → Option ρ
  | 0, _ => none
  | n + 1, s =>
    match body s with
    | .inl s' => rounds body n s'
    | .inr r => some r

/-- every round that goes on makes the measure smaller -/
def Falls (body : σ → σ ⊕ ρ) (measure : σ → ℕ) : Prop := ∀ s s', body s = .inl s' → measure s' < measure s

theorem rounds_isSome {body : σ → σ ⊕ ρ} {measure : σ → ℕ} (hf : Falls body measure) (n : ℕ) (s : σ)
    (hn : measure s < n) : (rounds body n s).isSome := by
  induction n generalizing s with
  | zero => omega
  | succ n ih =>
    cases hb : body s with
    | inl s' =>
      have := hf s s' hb
      simpa [rounds, hb] using ih s' (by omega)
    | inr r => simp [rounds, hb]

theorem rounds_mono {body : σ → σ ⊕ ρ} (n : ℕ) (s : σ) (r : ρ) (h : rounds body n s = some r) (m : ℕ) (hm : n ≤ m) :
    rounds body m s = some r := by
  induction n generalizing s m with
  | zero => simp [rounds] at h
  | succ n ih =>
    obtain ⟨m, rfl⟩ : ∃ k, m = k + 1 := ⟨m - 1, by omega⟩
    cases hb : body s with
    | inl s' =>
      simp only [rounds, hb] at h ⊢
      exact ih s' h m (by omega)
    | inr r' => simpa [rounds, hb] using h

/-- run the body until it leaves -/
def run (body : σ → σ ⊕ ρ) (measure : σ → ℕ) (hf : Falls body measure) (s : σ) : ρ :=
  (rounds body (measure s + 1) s).get (rounds_isSome hf _ s (Nat.lt_succ_self _))

theorem rounds_run {body : σ → σ ⊕ ρ} {measure : σ → ℕ} (hf : Falls body measure) (s : σ) :
    rounds body (measure s + 1) s = some (run body measure hf s) := by
  simp [run]

/-- one round of the loop -/
theorem run_eq {body : σ → σ ⊕ ρ} {measure : σ → ℕ} (hf : Falls body measure) (s : σ) :
    run body measure hf s =
      match body s with
      | .inl s' => run body measure hf s'
      | .inr r => r := by
  have h := rounds_run hf s
  cases hb : body s with
  | inl s' =>
    have hlt := hf s s' hb
    have h' := rounds_mono _ _ _ (rounds_run hf s') (measure s) hlt
    simp only [rounds, hb] at h
    exact Option.some.inj (h.symm.trans h')
  | inr r =>
    simp only [rounds, hb] at h
    exact (Option.some.inj h).symm

theorem run_of_inl {body : σ → σ ⊕ ρ} {measure : σ → ℕ} (hf : Falls body measure) {s s' : σ} (h : body s = .inl s') :
    run body measure hf s = run body measure hf s' := by
  rw [run_eq hf s, h]

theorem run_of_inr {body : σ → σ ⊕ ρ} {measure : σ → ℕ} (hf : Falls body measure) {s : σ} {r : ρ}
    (h : body s = .inr r) : run body measure hf s = r := by
  rw [run_eq hf s, h]

/-- **Loop rule.** An invariant that every round keeps, and that gives `Q` on the round that leaves, gives `Q` of the
result. -/
theorem run_rule {body : σ → σ ⊕ ρ} {measure : σ → ℕ} (hf : Falls body measure) {I : σ → Prop} {Q : ρ → Prop}
    (hgo : ∀ s s', I s → body s = .inl s' → I s') (hleave : ∀ s r, I s → body s = .inr r → Q r) {s : σ} (h : I s) :
    Q (run body measure hf s) := by
  induction hm : measure s using Nat.strong_induction_on generalizing s with
  | _ m ih =>
    cases hb : body s with
    | inl s' =>
      rw [run_of_inl hf hb]
      exact ih (measure s') (hm ▸ hf s s' hb) (hgo s s' h hb) rfl
    | inr r =>
      rw [run_of_inr hf hb]
      exact hleave s r h hb

/-- **Simulation rule.** Two loops whose rounds match, go on together and leave together have matching results. -/
theorem run_sim {τ ρ' : Type*} {body : σ → σ ⊕ ρ} {measure : σ → ℕ} (hf : Falls body measure) {body' : τ → τ ⊕ ρ'}
    {measure' : τ → ℕ} (hf' : Falls body' measure') {R : σ → τ → Prop} {Q : ρ → ρ' → Prop}
    (hround : ∀ s t, R s t → Sum.LiftRel R Q (body s) (body' t)) {s : σ} {t : τ} (h : R s t) :
    Q (run body measure hf s) (run body' measure' hf' t) := by
  induction hm : measure s using Nat.strong_induction_on generalizing s t with
  | _ m ih =>
    have hst := hround s t h
    cases hb : body s with
    | inl s' =>
      cases hb' : body' t with
      | inl t' =>
        rw [hb, hb'] at hst
        rw [run_of_inl hf hb, run_of_inl hf' hb']
        exact ih (measure s') (hm ▸ hf s s' hb) (Sum.liftRel_inl_inl.1 hst) rfl
      | inr r' =>
        rw [hb, hb'] at hst
        exact absurd hst Sum.not_liftRel_inl_inr
    | inr r =>
      cases hb' : body' t with
      | inl t' =>
        rw [hb, hb'] at hst
        exact absurd hst Sum.not_liftRel_inr_inl
      | inr r' =>
        rw [hb, hb'] at hst
        rw [run_of_inr hf hb, run_of_inr hf' hb']
        exact Sum.liftRel_inr_inr.1 hst

end Loop
