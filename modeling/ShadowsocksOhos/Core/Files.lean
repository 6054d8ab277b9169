/-
Files and the paths that point to them. A file keeps its number and its bytes for as long as someone has it open,
whatever happens to the path that it was opened by: `rename` moves a path from one file to another, and never touches
bytes. Every call succeeds in full.

- `spool_spec`, `rename_spec`: what is written to a path is found there, and at the path that it is moved to.
- `publish_spec`: both in a row; no other path changes.
-/
import ShadowsocksOhos.Core.Dict

/-- `links`: the file that a path points to; `contents`: the bytes of the files, by number -/
structure Files (π : Type*) where
  links : List (π × ℕ)
  contents : List (List UInt8)

namespace Files

variable {π : Type*}

/-! ## Bytes -/

def content (fs : Files π) (f : ℕ) : List UInt8 := fs.contents.getD f []

def size (fs : Files π) (f : ℕ) : ℕ := (fs.content f).length

/-- write at the beginning -/
def write (fs : Files π) (f : ℕ) (bytes : List UInt8) : Files π :=
  { fs with contents := fs.contents.set f (bytes ++ (fs.content f).drop bytes.length) }

/-- read from the beginning into a zeroed buffer -/
def read (fs : Files π) (f n : ℕ) : List UInt8 := (fs.content f).take n ++ List.replicate (n - fs.size f) 0

variable {fs : Files π} {f g : ℕ}

theorem content_set_self (h : f < fs.contents.length) (links : List (π × ℕ)) (bytes : List UInt8) :
    (⟨links, fs.contents.set f bytes⟩ : Files π).content f = bytes := by
  simp [content, h]

theorem content_set_of_ne (h : f ≠ g) (links : List (π × ℕ)) (bytes : List UInt8) :
    (⟨links, fs.contents.set g bytes⟩ : Files π).content f = fs.content f := by
  simp [content, List.getElem?_set_ne h.symm]

/-- an empty file holds what is written to it -/
theorem content_write_self (hf : f < fs.contents.length) (he : fs.content f = []) (bytes : List UInt8) :
    (fs.write f bytes).content f = bytes := by
  unfold write
  rw [content_set_self hf, he, List.drop_nil, List.append_nil]

theorem content_write_of_ne (h : f ≠ g) (bytes : List UInt8) : (fs.write g bytes).content f = fs.content f :=
  content_set_of_ne h _ _

/-- a read of the whole size reads everything -/
theorem read_size : fs.read f (fs.size f) = fs.content f := by
  simp [read, size]

/-! ## Paths -/

variable [DecidableEq π] {p q : π}

def link (fs : Files π) (p : π) : Option ℕ := Dict.get p fs.links

/-- open for writing, created when the path points nowhere, emptied otherwise -/
def openTrunc (fs : Files π) (p : π) : Files π × ℕ :=
  match fs.link p with
  | some f => (⟨fs.links, fs.contents.set f []⟩, f)
  | none => (⟨Dict.insert p fs.contents.length fs.links, fs.contents ++ [[]]⟩, fs.contents.length)

/-- `p` is taken away, and `q` points to its file -/
def rename (fs : Files π) (p q : π) : Files π :=
  match fs.link p with
  | some f => { fs with links := Dict.insert q f (Dict.remove p fs.links) }
  | none => fs

/-- `p` is taken away -/
def unlink (fs : Files π) (p : π) : Files π := { fs with links := Dict.remove p fs.links }

/-- the path points to a file, if it points anywhere -/
def Valid (fs : Files π) (p : π) : Prop := ∀ f, fs.link p = some f → f < fs.contents.length

/-- the file that is opened is empty, and is the one the path points to now -/
theorem openTrunc_opened (hv : fs.Valid p) : (fs.openTrunc p).1.link p = some (fs.openTrunc p).2 ∧
    (fs.openTrunc p).2 < (fs.openTrunc p).1.contents.length ∧ (fs.openTrunc p).1.content (fs.openTrunc p).2 = [] := by
  unfold openTrunc
  cases h : fs.link p with
  | some f => exact ⟨h, by simpa using hv f h, content_set_self (hv f h) _ _⟩
  | none => exact ⟨Dict.get_insert_self _ _ _, by simp, by simp [content]⟩

/-- a file that the path did not point to is another one, and does not change -/
theorem openTrunc_other (hf : f < fs.contents.length) (hne : fs.link p ≠ some f) : f ≠ (fs.openTrunc p).2 ∧
    f < (fs.openTrunc p).1.contents.length ∧ (fs.openTrunc p).1.content f = fs.content f := by
  unfold openTrunc
  cases h : fs.link p with
  | some g =>
    have hfg : f ≠ g := fun he => hne (he ▸ h)
    exact ⟨hfg, by simpa using hf, content_set_of_ne hfg _ _⟩
  | none => exact ⟨by simp; omega, by simp; omega, by simp [content, List.getElem?_append_left hf]⟩

theorem openTrunc_link (h : q ≠ p) : (fs.openTrunc p).1.link q = fs.link q := by
  unfold openTrunc
  split
  · rfl
  · exact Dict.get_insert_of_ne h _ _

theorem rename_link (h : fs.link p = some f) : (fs.rename p q).link q = some f := by
  unfold rename
  rw [h]
  exact Dict.get_insert_self _ _ _

theorem rename_gone (h : fs.link p = some f) (hne : p ≠ q) : (fs.rename p q).link p = none := by
  unfold rename
  rw [h]
  exact (Dict.get_insert_of_ne hne _ _).trans (Dict.get_remove_self _ _)

@[simp] theorem rename_contents : (fs.rename p q).contents = fs.contents := by
  unfold rename
  split <;> rfl

theorem rename_other {r : π} (hp : r ≠ p) (hq : r ≠ q) : (fs.rename p q).link r = fs.link r := by
  unfold rename
  split
  · exact (Dict.get_insert_of_ne hq _ _).trans (Dict.get_remove_of_ne hp _)
  · rfl

theorem unlink_gone : (fs.unlink p).link p = none := Dict.get_remove_self _ _

theorem unlink_other (h : q ≠ p) : (fs.unlink p).link q = fs.link q := Dict.get_remove_of_ne h _

/-! ## Publishing -/

/-- the bytes that a path leads to -/
def bytesAt (fs : Files π) (p : π) : Option (List UInt8) := (fs.link p).map fs.content

/-- every path points to a file of its own -/
structure Separate (fs : Files π) : Prop where
  valid : ∀ p, fs.Valid p
  distinct : ∀ p q f, fs.link p = some f → fs.link q = some f → p = q

theorem separate_empty : Separate (⟨[], []⟩ : Files π) := ⟨nofun, nofun⟩

/-- the bytes are written to `p` -/
def spool (fs : Files π) (p : π) (bytes : List UInt8) : Files π := (fs.openTrunc p).1.write (fs.openTrunc p).2 bytes

/-- the bytes are written to `p`, which then takes the place of `q` -/
def publish (fs : Files π) (p q : π) (bytes : List UInt8) : Files π :=
  ((fs.openTrunc p).1.write (fs.openTrunc p).2 bytes).rename p q

/-- one path is written, and no other one -/
theorem spool_spec (h : fs.Separate) (p : π) (bytes : List UInt8) :
    (fs.spool p bytes).Separate ∧ (fs.spool p bytes).bytesAt p = some bytes ∧
      ∀ r, r ≠ p → (fs.spool p bytes).bytesAt r = fs.bytesAt r := by
  obtain ⟨hopen, hlt, hempty⟩ := openTrunc_opened (h.valid p)
  have hp : (fs.spool p bytes).link p = some (fs.openTrunc p).2 := hopen
  have hlen : (fs.spool p bytes).contents.length = (fs.openTrunc p).1.contents.length := List.length_set
  have hlink : ∀ r, r ≠ p → (fs.spool p bytes).link r = fs.link r := fun r hr => openTrunc_link hr
  -- a file of another path is not the one that is written
  have hother : ∀ r, r ≠ p → ∀ f, fs.link r = some f → f ≠ (fs.openTrunc p).2 ∧
      f < (fs.spool p bytes).contents.length ∧ (fs.spool p bytes).content f = fs.content f := by
    intro r hr f hf
    obtain ⟨hne, hlt', hsame⟩ := openTrunc_other (h.valid r f hf) fun hc => hr (h.distinct r p f hf hc)
    exact ⟨hne, hlen ▸ hlt', (content_write_of_ne hne bytes).trans hsame⟩
  refine ⟨⟨?_, ?_⟩, ?_, ?_⟩
  · intro r f hf
    by_cases hr : r = p
    · rw [hr, hp] at hf
      cases hf
      rw [hlen]
      exact hlt
    · rw [hlink r hr] at hf
      exact (hother r hr f hf).2.1
  · intro r t f hf ht
    by_cases hr : r = p
    · by_cases htp : t = p
      · rw [hr, htp]
      · rw [hr, hp] at hf
        rw [hlink t htp] at ht
        exact absurd (Option.some.inj hf).symm (hother t htp f ht).1
    · rw [hlink r hr] at hf
      by_cases htp : t = p
      · rw [htp, hp] at ht
        exact absurd (Option.some.inj ht).symm (hother r hr f hf).1
      · rw [hlink t htp] at ht
        exact h.distinct r t f hf ht
  · unfold bytesAt
    rw [hp]
    exact congrArg some (content_write_self hlt hempty bytes)
  · intro r hr
    unfold bytesAt
    rw [hlink r hr]
    cases hf : fs.link r with
    | none => rfl
    | some f => exact congrArg some (hother r hr f hf).2.2

/-- the bytes are found at their new place -/
theorem rename_spec (h : fs.Separate) (hpq : p ≠ q) {bytes : List UInt8} (hp : fs.bytesAt p = some bytes) :
    (fs.rename p q).Separate ∧ (fs.rename p q).bytesAt q = some bytes ∧
      ∀ r, r ≠ p → r ≠ q → (fs.rename p q).bytesAt r = fs.bytesAt r := by
  obtain ⟨f, hf, rfl⟩ := Option.map_eq_some_iff.1 hp
  have hcontent : (fs.rename p q).content = fs.content := by
    funext g
    unfold content
    rw [rename_contents]
  have hlen : (fs.rename p q).contents.length = fs.contents.length := by rw [rename_contents]
  -- a path of the new files is one of the old ones
  have hold : ∀ r g, (fs.rename p q).link r = some g → ∃ r', fs.link r' = some g ∧
      (r = q ∧ r' = p ∨ r ≠ q ∧ r' = r ∧ r ≠ p) := by
    intro r g hg
    by_cases hq : r = q
    · rw [hq, rename_link hf] at hg
      exact ⟨p, hf.trans hg, Or.inl ⟨hq, rfl⟩⟩
    · by_cases hrp : r = p
      · rw [hrp, rename_gone hf hpq] at hg
        cases hg
      · rw [rename_other hrp hq] at hg
        exact ⟨r, hg, Or.inr ⟨hq, rfl, hrp⟩⟩
  refine ⟨⟨?_, ?_⟩, ?_, ?_⟩
  · intro r g hg
    obtain ⟨r', hr', -⟩ := hold r g hg
    rw [hlen]
    exact h.valid r' g hr'
  · intro r t g hr ht
    obtain ⟨r', hr', hcr⟩ := hold r g hr
    obtain ⟨t', ht', hct⟩ := hold t g ht
    have heq : r' = t' := h.distinct r' t' g hr' ht'
    rcases hcr with ⟨rfl, rfl⟩ | ⟨-, rfl, hrp⟩ <;> rcases hct with ⟨rfl, rfl⟩ | ⟨-, rfl, htp⟩
    · rfl
    · exact absurd heq.symm htp
    · exact absurd heq hrp
    · exact heq
  · unfold bytesAt
    rw [rename_link hf, hcontent]
    rfl
  · intro r hrp hrq
    unfold bytesAt
    rw [rename_other hrp hrq, hcontent]

/-- **Publishing.** -/
theorem publish_spec (h : fs.Separate) (hpq : p ≠ q) (bytes : List UInt8) :
    (fs.publish p q bytes).Separate ∧ (fs.publish p q bytes).bytesAt q = some bytes ∧
      ∀ r, r ≠ p → r ≠ q → (fs.publish p q bytes).bytesAt r = fs.bytesAt r := by
  obtain ⟨hs, hp, hr⟩ := spool_spec h p bytes
  obtain ⟨hs', hq, hr'⟩ := rename_spec hs hpq hp
  exact ⟨hs', hq, fun r hrp hrq => (hr' r hrp hrq).trans (hr r hrp)⟩

end Files
