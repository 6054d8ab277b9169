/-
Where a pattern first occurs in a list. `OccursAt pat s i` says that `pat` stands in `s` from place `i` on, and
`FirstOccurs` that it stands nowhere earlier. An occurrence that ends within a prefix is one of the prefix, so the
first occurrence is found as soon as a growing prefix contains it, wherever the prefix happens to be cut.

`block`: lines that each end in a two-element end of line. An empty line after them is the first place where two ends of
line stand together (`firstOccurs_block`). `splitLines` cuts a list at its ends of line.
-/
import Mathlib.Tactic

namespace Occurs

variable {α : Type*} {pat s t : List α} {i j : ℕ}

/-- `pat` stands in `s` from place `i` on -/
def OccursAt (pat s : List α) (i : ℕ) : Prop := pat <+: s.drop i

/-- the first place where `pat` stands in `s` -/
def FirstOccurs (pat s : List α) (i : ℕ) : Prop := OccursAt pat s i ∧ ∀ j < i, ¬ OccursAt pat s j

instance [DecidableEq α] (pat s : List α) (i : ℕ) : Decidable (OccursAt pat s i) :=
  inferInstanceAs (Decidable (pat <+: s.drop i))

instance [DecidableEq α] (pat s : List α) (i : ℕ) : Decidable (FirstOccurs pat s i) :=
  inferInstanceAs (Decidable (_ ∧ _))

theorem OccursAt.le_length (h : OccursAt pat s i) (hp : pat ≠ []) : i + pat.length ≤ s.length := by
  have h1 := h.length_le
  rw [List.length_drop] at h1
  have h2 := List.length_pos_of_ne_nil hp
  omega

theorem occursAt_iff_take : OccursAt pat s i ↔ (s.drop i).take pat.length = pat := by
  unfold OccursAt
  rw [List.prefix_iff_eq_take]
  exact eq_comm

theorem OccursAt.append (h : OccursAt pat s i) (hi : i ≤ s.length) (t : List α) : OccursAt pat (s ++ t) i := by
  unfold OccursAt
  rw [List.drop_append_of_le_length hi]
  exact h.trans (List.prefix_append _ _)

/-- an occurrence that ends within the prefix is one of the prefix -/
theorem occursAt_append_iff (hi : i + pat.length ≤ s.length) : OccursAt pat (s ++ t) i ↔ OccursAt pat s i := by
  rw [occursAt_iff_take, occursAt_iff_take, List.drop_append_of_le_length (by omega),
    List.take_append_of_le_length (by rw [List.length_drop]; omega)]

theorem FirstOccurs.unique (hi : FirstOccurs pat s i) (hj : FirstOccurs pat s j) : i = j := by
  rcases Nat.lt_trichotomy i j with h | h | h
  · exact absurd hi.1 (hj.2 i h)
  · exact h
  · exact absurd hj.1 (hi.2 j h)

/-- the first occurrence does not move when the list grows -/
theorem FirstOccurs.append (h : FirstOccurs pat s i) (hp : pat ≠ []) (t : List α) : FirstOccurs pat (s ++ t) i := by
  have hl := h.1.le_length hp
  refine ⟨h.1.append (by omega) t, fun j hj hjo => h.2 j hj ?_⟩
  exact (occursAt_append_iff (by omega)).1 hjo

/-- nor when it shrinks to a prefix that still contains it -/
theorem FirstOccurs.of_append (h : FirstOccurs pat (s ++ t) i) (hi : i + pat.length ≤ s.length) :
    FirstOccurs pat s i := by
  refine ⟨(occursAt_append_iff hi).1 h.1, fun j hj hjo => h.2 j hj ?_⟩
  exact hjo.append (by omega) t

/-- an occurrence after a part of the list, counted from the start of the list -/
theorem occursAt_append_right : OccursAt pat (s ++ t) (s.length + i) ↔ OccursAt pat t i := by
  unfold OccursAt
  rw [← List.drop_drop, List.drop_left]

theorem OccursAt.head {a : α} (h : OccursAt (a :: pat) s i) : s[i]? = some a := by
  obtain ⟨t, ht⟩ := h
  have := congrArg (fun l => l[0]?) ht
  simpa using this.symm

/-- a first occurrence after a part in which the pattern does not start -/
theorem FirstOccurs.shift (h : FirstOccurs pat t i) (hs : ∀ j < s.length, ¬ OccursAt pat (s ++ t) j) :
    FirstOccurs pat (s ++ t) (s.length + i) := by
  refine ⟨occursAt_append_right.2 h.1, fun j hj hjo => ?_⟩
  by_cases hlt : j < s.length
  · exact hs j hlt hjo
  · obtain ⟨k, rfl⟩ : ∃ k, j = s.length + k := ⟨j - s.length, by omega⟩
    exact h.2 k (by omega) (occursAt_append_right.1 hjo)

/-! ## Blocks of lines -/

/-- lines that each end in `cr lf` -/
def block (cr lf : α) (lines : List (List α)) : List α := lines.flatMap fun l => l ++ [cr, lf]

@[simp] theorem block_nil (cr lf : α) : block cr lf [] = [] := rfl

@[simp] theorem block_cons (cr lf : α) (l : List α) (lines : List (List α)) :
    block cr lf (l :: lines) = l ++ [cr, lf] ++ block cr lf lines := rfl

theorem block_append (cr lf : α) (a b : List (List α)) : block cr lf (a ++ b) = block cr lf a ++ block cr lf b :=
  List.flatMap_append

theorem not_infix_of_notMem {cr lf : α} {l : List α} (h : cr ∉ l) : ¬ [cr, lf] <:+: l :=
  fun hi => h (hi.subset List.mem_cons_self)

/-- an end of line does not begin where there is no `cr` -/
theorem infix_of_append_left {cr lf : α} {l t : List α} (hl : cr ∉ l) (h : [cr, lf] <:+: l ++ t) : [cr, lf] <:+: t := by
  induction l with
  | nil => exact h
  | cons x l ih =>
    obtain ⟨hx, hl⟩ := not_or.1 (mt List.mem_cons.2 hl)
    rcases List.infix_cons_iff.1 h with hp | hi
    · exact absurd (List.cons_prefix_cons.1 hp).1 hx
    · exact ih hl hi

/-- and does not end where there is no `lf` -/
theorem infix_of_append_right {cr lf : α} {l t : List α} (ht : lf ∉ t) (h : [cr, lf] <:+: l ++ t) : [cr, lf] <:+: l := by
  induction l with
  | nil => exact absurd (h.subset (by simp)) ht
  | cons x l ih =>
    rw [List.infix_cons_iff]
    rcases List.infix_cons_iff.1 h with hp | hi
    · obtain ⟨rfl, hlf⟩ := List.cons_prefix_cons.1 hp
      cases l with
      | nil => exact absurd (hlf.subset List.mem_cons_self) ht
      | cons y l =>
        obtain ⟨rfl, -⟩ := List.cons_prefix_cons.1 hlf
        exact Or.inl ⟨l, rfl⟩
    · exact Or.inr (ih hi)

/-- an end of line that begins in a line is an end of line of that line -/
theorem not_occursAt_line {cr lf : α} (hne : cr ≠ lf) {l : List α} (hl : ¬ [cr, lf] <:+: l) (hj : j < l.length) :
    ¬ OccursAt (cr :: lf :: pat) (l ++ cr :: t) j := by
  intro h
  obtain ⟨u, hu⟩ := h
  have hdrop : (l ++ cr :: t).drop j = l.drop j ++ cr :: t := List.drop_append_of_le_length hj.le
  obtain ⟨x, xs, hx⟩ := List.exists_cons_of_ne_nil (List.ne_nil_of_length_pos (by rwa [List.length_drop, Nat.sub_pos_iff_lt]))
  rw [hdrop, hx] at hu
  cases xs with
  | nil =>
    -- the last element of the line is followed by `cr`
    simp only [List.cons_append, List.nil_append, List.cons.injEq] at hu
    exact hne hu.2.1.symm
  | cons y ys =>
    simp only [List.cons_append, List.cons.injEq] at hu
    obtain ⟨rfl, rfl, -⟩ := hu
    refine hl ⟨l.take j, ys, ?_⟩
    calc l.take j ++ [cr, lf] ++ ys = l.take j ++ l.drop j := by rw [hx, List.append_assoc]; rfl
      _ = l := List.take_append_drop j l

/-- **The end of a block.** When no line is empty or contains an end of line, the empty line after the block is the first
place where two ends of line stand together. -/
theorem firstOccurs_block {cr lf : α} (hne : cr ≠ lf) {lines : List (List α)} (h0 : lines ≠ [])
    (hl : ∀ l ∈ lines, l ≠ [] ∧ ¬ [cr, lf] <:+: l) (t : List α) :
    FirstOccurs [cr, lf, cr, lf] (block cr lf lines ++ ([cr, lf] ++ t)) ((block cr lf lines).length - 2) := by
  induction lines with
  | nil => exact absurd rfl h0
  | cons l lines ih =>
    obtain ⟨-, hcr⟩ := hl l List.mem_cons_self
    cases lines with
    | nil =>
      have hat : FirstOccurs [cr, lf, cr, lf] ([cr, lf] ++ ([cr, lf] ++ t)) 0 :=
        ⟨⟨t, rfl⟩, fun j hj => absurd hj (Nat.not_lt_zero j)⟩
      have := hat.shift (s := l) fun j hj => not_occursAt_line hne hcr hj
      simpa using this
    | cons l' lines =>
      obtain ⟨hl'0, hl'⟩ := hl l' (by simp)
      have hrest := ih (by simp) fun m hm => hl m (List.mem_cons_of_mem _ hm)
      have := hrest.shift (s := l ++ [cr, lf]) fun j hj => ?_
      · have hlen : 2 ≤ (block cr lf (l' :: lines)).length := by simp; omega
        rw [block_cons, List.append_assoc, List.length_append, Nat.add_sub_assoc hlen]
        exact this
      · rw [List.append_assoc]
        rw [List.length_append] at hj
        rcases Nat.lt_trichotomy j l.length with hlt | rfl | hgt
        · exact not_occursAt_line hne hcr hlt
        · -- at the end of the line: the next line does not start with an end of line
          intro ho
          have hnext : OccursAt [cr, lf] (l' ++ cr :: ([lf] ++ block cr lf lines ++ ([cr, lf] ++ t))) 0 := by
            obtain ⟨u, hu⟩ := ho
            rw [List.drop_left, block_cons] at hu
            simp only [List.cons_append, List.nil_append, List.cons.injEq, true_and] at hu
            refine ⟨u, ?_⟩
            rw [List.drop_zero]
            simpa using hu
          exact not_occursAt_line hne hl' (List.length_pos_of_ne_nil hl'0) hnext
        · intro ho
          obtain ⟨k, rfl⟩ : ∃ k, j = l.length + k := ⟨j - l.length, by omega⟩
          have hk : k = 1 := by simp at hj; omega
          subst hk
          have := (occursAt_append_right.1 ho).head
          simp only [List.cons_append, List.getElem?_cons_succ, List.getElem?_cons_zero, Option.some.injEq] at this
          exact hne this.symm

/-! ## Cutting into lines -/

/-- the lines of a list, without their ends; the last one is what follows the last end of line -/
def splitLines [DecidableEq α] (cr lf : α) : List α → List (List α)
  | [] => [[]]
  | [x] => [[x]]
  | x :: y :: rest =>
    if x = cr ∧ y = lf then [] :: splitLines cr lf rest
    else
      match splitLines cr lf (y :: rest) with
      | l :: lines => (x :: l) :: lines
      | [] => [[x]]

variable [DecidableEq α] {cr lf : α}

/-- a line is cut off at its end -/
theorem splitLines_line (hne : cr ≠ lf) {l : List α} (hl : ¬ [cr, lf] <:+: l) (t : List α) :
    splitLines cr lf (l ++ cr :: lf :: t) = l :: splitLines cr lf t := by
  induction l with
  | nil => simp [splitLines]
  | cons x l ih =>
    have hl' : ¬ [cr, lf] <:+: l := fun h => hl (h.trans (List.suffix_cons x l).isInfix)
    have ih := ih hl'
    cases l with
    | nil =>
      have hx : ¬ (x = cr ∧ cr = lf) := fun h => hne h.2
      simp only [List.cons_append, List.nil_append] at ih ⊢
      rw [splitLines, if_neg hx, ih]
    | cons y l =>
      have hx : ¬ (x = cr ∧ y = lf) := by
        rintro ⟨rfl, rfl⟩
        exact hl ⟨[], l, rfl⟩
      simp only [List.cons_append] at ih ⊢
      rw [splitLines, if_neg hx, ih]

/-- a line without an end is one line -/
theorem splitLines_last {l : List α} (hl : ¬ [cr, lf] <:+: l) : splitLines cr lf l = [l] := by
  induction l with
  | nil => rfl
  | cons x l ih =>
    have ih := ih fun h => hl (h.trans (List.suffix_cons x l).isInfix)
    cases l with
    | nil => rfl
    | cons y l =>
      have hx : ¬ (x = cr ∧ y = lf) := by
        rintro ⟨rfl, rfl⟩
        exact hl ⟨[], l, rfl⟩
      rw [splitLines, if_neg hx, ih]

/-- a block is cut into its lines, but for its last end of line -/
theorem splitLines_block (hne : cr ≠ lf) {lines : List (List α)} (h0 : lines ≠ []) (hl : ∀ l ∈ lines, ¬ [cr, lf] <:+: l) :
    ∃ header, block cr lf lines = header ++ [cr, lf] ∧ splitLines cr lf header = lines := by
  induction lines with
  | nil => exact absurd rfl h0
  | cons l lines ih =>
    have hfree := hl l List.mem_cons_self
    by_cases hnil : lines = []
    · subst hnil
      exact ⟨l, by simp, splitLines_last hfree⟩
    · obtain ⟨header, hblock, hsplit⟩ := ih hnil fun m hm => hl m (List.mem_cons_of_mem _ hm)
      refine ⟨l ++ cr :: lf :: header, ?_, ?_⟩
      · rw [block_cons, hblock]
        simp
      · rw [splitLines_line hne hfree, hsplit]

/-- the first line is what the list begins with -/
theorem splitLines_head (s : List α) : ∀ l ∈ (splitLines cr lf s).head?, l <+: s := by
  induction s using splitLines.induct cr lf with
  | case1 => simp [splitLines]
  | case2 x => simp [splitLines]
  | case3 x y rest h ih =>
    rw [splitLines, if_pos h]
    rintro l ⟨⟩
    exact List.nil_prefix
  | case4 x y rest h l lines heq ih =>
    rw [splitLines, if_neg h, heq]
    rintro m ⟨⟩
    rw [heq] at ih
    exact (List.prefix_cons_inj x).2 (ih l rfl)
  | case5 x y rest h heq ih =>
    rw [splitLines, if_neg h, heq]
    rintro m ⟨⟩
    exact ⟨y :: rest, rfl⟩

/-- no line contains an end of line -/
theorem splitLines_free (s : List α) : ∀ l ∈ splitLines cr lf s, ¬ [cr, lf] <:+: l := by
  induction s using splitLines.induct cr lf with
  | case1 => simp [splitLines]
  | case2 x => simp [splitLines, List.infix_cons_iff]
  | case3 x y rest h ih =>
    rw [splitLines, if_pos h]
    intro l hl
    rcases List.mem_cons.1 hl with rfl | hl
    · simp
    · exact ih l hl
  | case4 x y rest h l lines heq ih =>
    rw [splitLines, if_neg h, heq]
    rw [heq] at ih
    intro m hm
    rcases List.mem_cons.1 hm with rfl | hm
    · rw [List.infix_cons_iff]
      rintro (hp | hi)
      · -- the line would go on with `lf`, and that is `y`
        have hhead : l <+: y :: rest := splitLines_head _ l (by rw [heq]; rfl)
        obtain ⟨rfl, hlf⟩ := List.cons_prefix_cons.1 hp
        obtain ⟨rfl, -⟩ := List.cons_prefix_cons.1 (hlf.trans hhead)
        exact h ⟨rfl, rfl⟩
      · exact ih l List.mem_cons_self hi
    · exact ih m (List.mem_cons_of_mem _ hm)
  | case5 x y rest h heq ih =>
    rw [splitLines, if_neg h, heq]
    simp [List.infix_cons_iff]

end Occurs
