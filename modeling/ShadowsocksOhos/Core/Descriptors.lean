/-
Descriptor tables. `open` and `dup` hand out the lowest free number, and `close` frees it again, so a number stands for
one descriptor after another: who closes a number twice, or one that somebody else closes too, may hit a descriptor of a
third. A descriptor has a serial here, which is never used again, so that one can say which one a `close` has hit.

- `dup_ok`: a duplicate has a number that was free, and refers to the same file.
- `Ledger`: every open descriptor is held by one holder, and every `close` so far has hit the descriptor that the holder
meant. `Ledger.openFile`, `Ledger.close`: holders that open at free numbers and close each descriptor they hold once keep it.
-/
import Mathlib.Tactic

namespace Descriptors

structure Descriptor where
  number : ℕ
  serial : ℕ
  /-- what it refers to -/
  file : ℕ
deriving DecidableEq, Repr

structure Table where
  opened : List Descriptor
  /-- the next serial -/
  next : ℕ
deriving DecidableEq, Repr

namespace Table

def find (t : Table) (n : ℕ) : Option Descriptor := t.opened.find? (·.number = n)

/-- no more than as many numbers as there are descriptors have to be tried -/
def lowestFree (t : Table) : ℕ := ((List.range (t.opened.length + 1)).find? fun n => (t.find n).isNone).getD 0

def add (t : Table) (n file : ℕ) : Descriptor × Table := (⟨n, t.next, file⟩, ⟨⟨n, t.next, file⟩ :: t.opened, t.next + 1⟩)

/-- numbers stay below `limit` -/
def openFile (t : Table) (limit file : ℕ) : Option (Descriptor × Table) :=
  if t.lowestFree < limit then some (t.add t.lowestFree file) else none

inductive DupError where
  | badFd
  | tooManyFiles
deriving DecidableEq, Repr

def dup (t : Table) (limit n : ℕ) : Except DupError (Descriptor × Table) :=
  match t.find n with
  | none => .error .badFd
  | some d =>
    match t.openFile limit d.file with
    | none => .error .tooManyFiles
    | some r => .ok r

/-- the descriptor that was hit, if there was one, and the table after it -/
def close (t : Table) (n : ℕ) : Option Descriptor × Table :=
  (t.find n, { t with opened := t.opened.filter (·.number ≠ n) })

variable {t t' : Table} {d : Descriptor} {limit file n : ℕ}

/-! ## Finding -/

theorem find_isNone : (t.find n).isNone = true ↔ ∀ d ∈ t.opened, d.number ≠ n := by
  simp [find]

theorem find_mem (h : t.find n = some d) : d ∈ t.opened ∧ d.number = n :=
  ⟨List.mem_of_find?_eq_some h, by simpa using List.find?_some h⟩

/-- the number that is handed out is free -/
theorem lowestFree_free (t : Table) : ∀ d ∈ t.opened, d.number ≠ t.lowestFree := by
  rw [← find_isNone]
  unfold lowestFree
  cases h : (List.range (t.opened.length + 1)).find? fun n => (t.find n).isNone with
  | some n =>
    have hn : (t.find n).isNone = true := @List.find?_some _ (fun n => (t.find n).isNone) n _ h
    exact hn
  | none =>
    -- otherwise there would be more numbers in use than descriptors
    exfalso
    rw [List.find?_eq_none] at h
    have hsub : Finset.range (t.opened.length + 1) ⊆ (t.opened.map Descriptor.number).toFinset := by
      intro n hn
      have hused := h n (List.mem_range.2 (Finset.mem_range.1 hn))
      rw [find_isNone] at hused
      push Not at hused
      obtain ⟨d, hd, rfl⟩ := hused
      exact List.mem_toFinset.2 (List.mem_map_of_mem hd)
    have hcard := Finset.card_le_card hsub
    have hlen := List.toFinset_card_le (t.opened.map Descriptor.number)
    rw [Finset.card_range] at hcard
    rw [List.length_map] at hlen
    omega

theorem openFile_eq (h : t.openFile limit file = some (d, t')) :
    d.file = file ∧ t'.opened = d :: t.opened ∧ (∀ e ∈ t.opened, e.number ≠ d.number) ∧ d.serial = t.next ∧
      t'.next = t.next + 1 := by
  unfold openFile at h
  split_ifs at h
  cases h
  exact ⟨rfl, rfl, t.lowestFree_free, rfl, rfl⟩

/-- **What a duplicate is.** -/
theorem dup_ok (h : t.dup limit n = .ok (d, t')) :
    (∃ e ∈ t.opened, e.number = n ∧ e.file = d.file) ∧ t.openFile limit d.file = some (d, t') := by
  unfold dup at h
  split at h
  · cases h
  · rename_i e he
    split at h
    · cases h
    · rename_i r hr
      cases h
      obtain ⟨hm, hn⟩ := find_mem he
      have hfile := (openFile_eq hr).1
      exact ⟨⟨e, hm, hn, hfile.symm⟩, by rw [hfile]; exact hr⟩

/-- a duplicate never has the number of the descriptor it was made from -/
theorem dup_ne (h : t.dup limit n = .ok (d, t')) : d.number ≠ n := by
  obtain ⟨⟨e, he, hn, -⟩, hopen⟩ := dup_ok h
  rw [← hn]
  exact ((openFile_eq hopen).2.2.1 e he).symm

end Table

/-! ## Holders -/

/-- a `close` by a holder: the descriptor it meant, and the one it hit -/
structure Closed where
  meant : Descriptor
  hit : Option Descriptor
deriving DecidableEq, Repr

/-- `held`: the descriptors of all holders together; `log`: the closes so far -/
structure Ledger (t : Table) (held : List Descriptor) (log : List Closed) : Prop where
  held : held.Perm t.opened
  numbers : (t.opened.map Descriptor.number).Nodup
  serials : ((log.map (·.meant.serial)) ++ t.opened.map Descriptor.serial).Nodup
  fresh : ∀ s ∈ (log.map (·.meant.serial)) ++ t.opened.map Descriptor.serial, s < t.next
  hits : ∀ c ∈ log, c.hit = some c.meant

namespace Ledger

variable {t t' : Table} {d : Descriptor} {held held' : List Descriptor} {log : List Closed} {limit file : ℕ}

theorem empty : Ledger ⟨[], 0⟩ [] [] := ⟨List.Perm.nil, List.nodup_nil, List.nodup_nil, nofun, nofun⟩

/-- a descriptor is opened, and someone holds it -/
theorem openFile (h : Ledger t held log) (ho : t.openFile limit file = some (d, t')) : Ledger t' (d :: held) log := by
  obtain ⟨-, hopened, hfree, hserial, hnext⟩ := Table.openFile_eq ho
  refine ⟨?_, ?_, ?_, ?_, h.hits⟩
  · rw [hopened]
    exact h.held.cons d
  · rw [hopened, List.map_cons, List.nodup_cons]
    refine ⟨fun hm => ?_, h.numbers⟩
    obtain ⟨e, he, hn⟩ := List.mem_map.1 hm
    exact hfree e he hn
  · have hperm : List.Perm (log.map (·.meant.serial) ++ d.serial :: t.opened.map Descriptor.serial)
        (d.serial :: (log.map (·.meant.serial) ++ t.opened.map Descriptor.serial)) := List.perm_middle
    rw [hopened, List.map_cons, hperm.nodup_iff, List.nodup_cons]
    refine ⟨fun hm => ?_, h.serials⟩
    have := h.fresh _ hm
    omega
  · rw [hopened, List.map_cons, hnext]
    intro s hs
    rw [List.perm_middle.mem_iff] at hs
    rcases List.mem_cons.1 hs with rfl | hs
    · omega
    · have := h.fresh s hs
      omega

/-- a number in the table belongs to one descriptor -/
theorem find_number (h : Ledger t held log) (hd : d ∈ t.opened) : t.find d.number = some d := by
  unfold Table.find
  cases hf : t.opened.find? (·.number = d.number) with
  | none =>
    have hne := List.find?_eq_none.1 hf d hd
    simp at hne
  | some e =>
    have hn : e.number = d.number := by simpa using List.find?_some hf
    exact congrArg some (List.inj_on_of_nodup_map h.numbers (List.mem_of_find?_eq_some hf) hd hn)

/-- **A holder closes what it holds**: it hits that descriptor, which nobody holds any more. -/
theorem close (h : Ledger t held log) (hheld : held.Perm (d :: held')) :
    Ledger (t.close d.number).2 held' (⟨d, (t.close d.number).1⟩ :: log) := by
  have hd : d ∈ t.opened := h.held.subset (hheld.mem_iff.2 List.mem_cons_self)
  have hperm : t.opened.Perm (d :: t.opened.filter (·.number ≠ d.number)) := by
    have hnodup : t.opened.Nodup := List.Nodup.of_map _ h.numbers
    have herase : t.opened.filter (·.number ≠ d.number) = t.opened.erase d := by
      rw [hnodup.erase_eq_filter]
      refine List.filter_congr fun e he => ?_
      have : e.number = d.number ↔ e = d :=
        ⟨fun hn => List.inj_on_of_nodup_map h.numbers he hd hn, fun he => congrArg _ he⟩
      by_cases hn : e.number = d.number
      · simp [this.1 hn]
      · simp [hn, mt this.2 hn]
    rw [herase]
    exact List.perm_cons_erase hd
  have hserials : ((log.map (·.meant.serial)) ++ t.opened.map Descriptor.serial).Perm
      (d.serial :: (log.map (·.meant.serial)) ++ (t.opened.filter (·.number ≠ d.number)).map Descriptor.serial) :=
    ((hperm.map Descriptor.serial).append_left _).trans List.perm_middle
  refine ⟨?_, ?_, hserials.nodup_iff.1 h.serials, fun s hs => h.fresh s (hserials.mem_iff.2 hs), ?_⟩
  · exact (List.perm_cons d).1 (hheld.symm.trans (h.held.trans hperm))
  · exact (List.filter_sublist.map _).nodup h.numbers
  · intro c hc
    rcases List.mem_cons.1 hc with rfl | hc
    · exact h.find_number hd
    · exact h.hits c hc

end Ledger

end Descriptors
