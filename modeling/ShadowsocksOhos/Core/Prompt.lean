/-
Machines that read from a source. Such a machine is prompt when it answers pending only where the source has: it stops for
nothing of its own, so that enough polls bring everything through.

- `Used`, `Waits`: how many answers of the plan have been used, and that the last one of them was pending.
- `Prompt`: one poll of a machine. `prompt_loop`: a poll that reads in a loop.
- `waited_run`: over a run, no more polls are pending than pending answers of the plan have been used.
- `answered_run`: so all others are answered.
-/
import Mathlib.Data.Nat.Count
import ShadowsocksOhos.Core.Answering
import ShadowsocksOhos.Core.Loop
import ShadowsocksOhos.Core.Polled

namespace Polled

namespace Source

variable {β ε : Type*} {s s' s'' : Source β ε} {m n : ℕ}

/-- `n` answers of the plan have been used between `s` and `s'` -/
def Used (s s' : Source β ε) (n : ℕ) : Prop := ∀ k, s'.plan k = s.plan (n + k)

/-- answers have been used, and the last one of them was pending -/
def Waits (s s' : Source β ε) : Prop := ∃ n, s.plan n = .pending ∧ Used s s' (n + 1)

theorem used_zero (s : Source β ε) : Used s s 0 := fun k => by rw [Nat.zero_add]

theorem Used.trans (h : Used s s' m) (h' : Used s' s'' n) : Used s s'' (m + n) := fun k => by
  rw [h', h, Nat.add_assoc]

theorem Used.waits (h : Used s s' m) (h' : Waits s' s'') : Waits s s'' := by
  obtain ⟨n, hn, hused⟩ := h'
  exact ⟨m + n, by rw [← h, hn], h.trans hused⟩

/-- every read uses one answer -/
theorem pollRead_used (s : Source β ε) (room : ℕ) : Used s (s.pollRead room).2 1 := by
  intro k
  unfold pollRead
  cases s.plan 0 <;> exact congrArg s.plan (Nat.add_comm k 1)

theorem pollRead_waits {room : ℕ} (h : s.pollRead room = (.pending, s')) : Waits s s' := by
  have hused := pollRead_used s room
  rw [h] at hused
  refine ⟨0, ?_, hused⟩
  unfold pollRead at h
  cases hp : s.plan 0 with
  | pending => rfl
  | data k | error e => simp [hp] at h

end Source

/-! ## One poll -/

section Machine

variable {β ε α σ ι : Type*} {recv : σ → Source β ε}

/-- a poll of `s` that gives `r` -/
structure Prompt (recv : σ → Source β ε) (s : σ) (r : Poll α × σ) : Prop where
  used : ∃ n, (recv s).Used (recv r.2) n
  waits : r.1 = .pending → (recv s).Waits (recv r.2)

/-- a poll that has read before -/
theorem Prompt.after {s t : σ} {r : Poll α × σ} {m : ℕ} (h : (recv s).Used (recv t) m) (hr : Prompt recv t r) :
    Prompt recv s r := by
  obtain ⟨n, hn⟩ := hr.used
  exact ⟨⟨m + n, h.trans hn⟩, fun hp => h.waits (hr.waits hp)⟩

/-- a poll that is answered without a pending read -/
theorem Prompt.ready {s t : σ} {a : α} {n : ℕ} (h : (recv s).Used (recv t) n) : Prompt recv s (.ready a, t) :=
  ⟨⟨n, h⟩, nofun⟩

/-- a round of a loop: it goes on after some reads, or it leaves -/
def PromptRound (recv : σ → Source β ε) (s : σ) : σ ⊕ (Poll α × σ) → Prop
  | .inl s' => ∃ n, (recv s).Used (recv s') n
  | .inr r => Prompt recv s r

theorem promptRound_ready {s t : σ} {a : α} {n : ℕ} (h : (recv s).Used (recv t) n) :
    PromptRound recv s (.inr (.ready a, t)) :=
  .ready h

/-- **Loop rule.** A loop is prompt when each of its rounds is. -/
theorem prompt_loop {body : σ → σ ⊕ (Poll α × σ)} {measure : σ → ℕ} (hf : Loop.Falls body measure)
    (hround : ∀ s, PromptRound recv s (body s)) (s : σ) : Prompt recv s (Loop.run body measure hf s) := by
  refine Loop.run_rule hf (I := fun t => ∃ n, (recv s).Used (recv t) n) (Q := Prompt recv s) ?_ ?_
    ⟨0, Source.used_zero _⟩
  · rintro t t' ⟨m, hm⟩ ht
    have hgo := hround t
    rw [ht] at hgo
    obtain ⟨n, hn⟩ := hgo
    exact ⟨m + n, hm.trans hn⟩
  · rintro t r ⟨m, hm⟩ ht
    have hleave := hround t
    rw [ht] at hleave
    exact .after hm hleave

/-! ## Runs -/

variable [DecidableEq ε] [DecidableEq α] {poll : σ → ι → Poll α × σ}

/-- how many polls were pending -/
def waited (hist : List (ι × Poll α)) : ℕ := (hist.filter fun x => x.2 = .pending).length

/-- how many of the first `n` answers of a plan are pending -/
def pauses (plan : ℕ → ReadAnswer ε) (n : ℕ) : ℕ := Nat.count (fun k => plan k = .pending) n

theorem pauses_mono (plan : ℕ → ReadAnswer ε) {m n : ℕ} (h : m ≤ n) : pauses plan m ≤ pauses plan n :=
  Nat.count_monotone _ h

/-- **Run rule.** -/
theorem waited_run (hpoll : ∀ s i, Prompt recv s (poll s i)) (s : σ) (is : List ι) :
    ∃ n, (recv s).Used (recv (Answering.run poll s is).2) n ∧
      waited (Answering.run poll s is).1 ≤ pauses (recv s).plan n := by
  refine Answering.run_inv_of_inputs (P := fun _ => True)
    (I := fun hist t => ∃ n, (recv s).Used (recv t) n ∧ waited hist ≤ pauses (recv s).plan n) ?_ ?_ (fun _ _ => trivial)
  · exact ⟨0, Source.used_zero _, Nat.zero_le _⟩
  · rintro hist t i ⟨m, hm, hle⟩ -
    unfold waited at hle ⊢
    rw [List.filter_append, List.length_append]
    obtain ⟨⟨n, hn⟩, hwaits⟩ := hpoll t i
    by_cases hp : (poll t i).1 = .pending
    · obtain ⟨k, hk, hafter⟩ := hwaits hp
      refine ⟨m + (k + 1), hm.trans hafter, ?_⟩
      have hlast : pauses (recv s).plan (m + k + 1) = pauses (recv s).plan (m + k) + 1 := by
        unfold pauses
        rw [Nat.count_succ, if_pos ((hm k).symm.trans hk)]
      have hmono := pauses_mono (recv s).plan (Nat.le_add_right m k)
      rw [← Nat.add_assoc, hlast]
      simp only [hp, decide_true, List.filter_cons_of_pos, List.filter_nil, List.length_singleton]
      omega
    · refine ⟨m + n, hm.trans hn, ?_⟩
      have hmono := pauses_mono (recv s).plan (Nat.le_add_right m n)
      simp only [hp, decide_false, Bool.false_eq_true, not_false_eq_true, List.filter_cons_of_neg, List.filter_nil,
        List.length_nil, Nat.add_zero]
      omega

/-- when at most `p` answers of the plan are pending, all polls but `p` are answered -/
theorem answered_run (hpoll : ∀ s i, Prompt recv s (poll s i)) (s : σ) (is : List ι) {p : ℕ}
    (hp : ∀ n, pauses (recv s).plan n ≤ p) :
    is.length ≤ ((Answering.run poll s is).1.filter fun x => x.2 ≠ .pending).length + p := by
  obtain ⟨n, -, hn⟩ := waited_run hpoll s is
  have hlen : is.length = (Answering.run poll s is).1.length := by
    rw [← List.length_map Prod.fst, Answering.run_inputs]
  have hsplit := List.length_eq_length_filter_add (l := (Answering.run poll s is).1) fun x => decide (x.2 = .pending)
  simp only [ne_eq, decide_not]
  have := hn.trans (hp n)
  unfold waited at this
  omega

end Machine

end Polled
