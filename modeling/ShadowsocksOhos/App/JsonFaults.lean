/-
`JsonStore.read`, `JsonStore.write` and `JsonStore.remove` on one name, in two processes, where anything may go wrong: the
calls of the file system come in any order, each may throw, `writeSync` may store and `readSync` fetch fewer bytes than
asked for, and a process may die between any two calls. A read may then return a text that nobody wrote, since the size is
asked for before the file is opened and the counts of the calls are not looked at. But the documents that the app stores
there are arrays and objects, and a text that nobody wrote is none.
- `Placed`: every file that the path ever leads to holds the first bytes of a content that was moved into place.
- `faulty_inv`: the invariant of every run.
- `never_misread`: what a read returns is a content that was in place, whole, or `JSON.parse` throws on it.
-/
import ShadowsocksOhos.App.JsonCut

namespace ShadowsocksOhos

namespace JsonStore

open JsonParse

/-! ## Steps that may fail -/

/-- one call of the file system; `ok` says whether it returns or throws -/
inductive FaultyAction where
  /-- `write` is called: `openSync` of the temporary path -/
  | write (content : JsString) (ok : Bool)
  /-- this many bytes are stored, whether the call returns or throws -/
  | writeSync (stored : ℕ) (ok : Bool)
  | closeSync (ok : Bool)
  | renameSync (ok : Bool)
  /-- `remove` is called: `unlinkSync` -/
  | remove (ok : Bool)
  /-- the process that writes dies, and is started again -/
  | writerDies
  /-- `read` is called -/
  | statSync (ok : Bool)
  | openSync (ok : Bool)
  /-- up to this many bytes are fetched -/
  | readSync (fetched : ℕ) (ok : Bool)
  /-- the file that was read is closed, and the buffer decoded -/
  | closeRead (ok : Bool)
  | readerDies
deriving DecidableEq, Repr

/-- the read returns this text -/
def St.returns (s : St) (text : JsString) : St := { s with reader := .idle, results := ⟨text, s.inPlace⟩ :: s.results }

/-- a buffer of this size after `readSync` -/
def bufferOf (content : List UInt8) (size fetched : ℕ) : List UInt8 :=
  content.take (min fetched size) ++ List.replicate (size - (content.take (min fetched size)).length) 0

def faultyStep (s : St) : FaultyAction → Option St
  | .write content ok =>
    match s.writer with
    | .idle =>
      if ok then
        let (fs, fd) := s.fs.openTrunc .tmp
        some { s with fs := fs, writer := .opened content fd }
      else some s
    | _ => none
  | .writeSync stored ok =>
    match s.writer with
    | .opened content fd =>
      -- when it throws, the file is closed and the error goes on to the caller
      some { s with
        fs := s.fs.write fd ((bytesOf content).take stored)
        writer := if ok then .written content fd else .idle }
    | _ => none
  | .closeSync ok =>
    match s.writer with
    | .written content _ => some { s with writer := if ok then .closed content else .idle }
    | _ => none
  | .renameSync ok =>
    match s.writer with
    | .closed content =>
      if ok then
        some { s with
          fs := s.fs.rename .tmp .path
          writer := .idle
          inPlace := content :: s.inPlace }
      else some { s with writer := .idle }
    | _ => none
  | .remove ok =>
    match s.writer with
    | .idle => some (if ok then { s with fs := s.fs.unlink .path } else s)
    | _ => none
  | .writerDies => some { s with writer := .idle }
  | .statSync ok =>
    match s.reader with
    | .idle =>
      match s.fs.link .path, ok with
      | some f, true => some { s with reader := .stated (s.fs.size f) }
      | _, _ => some (s.returns [])
    | _ => none
  | .openSync ok =>
    match s.reader with
    | .stated size =>
      match s.fs.link .path, ok with
      | some fd, true => some { s with reader := .opened size fd }
      | _, _ => some (s.returns [])
    | _ => none
  | .readSync fetched ok =>
    match s.reader with
    | .opened size fd =>
      some (if ok then { s with reader := .filled (bufferOf (s.fs.content fd) size fetched) } else s.returns [])
    | _ => none
  | .closeRead ok =>
    match s.reader with
    | .filled buffer => some (s.returns (if ok then textOf buffer else []))
    | _ => none
  | .readerDies => some { s with reader := .idle }

/-! ## Invariant -/

/-- the first bytes of a content -/
def FirstBytes (content : JsString) (bytes : List UInt8) : Prop := ∃ n, bytes = (bytesOf content).take n

/-- a file that was moved into place -/
structure Placed (s : St) (f : ℕ) : Prop where
  content : ∃ c ∈ s.inPlace, FirstBytes c (s.fs.content f)
  not_tmp : s.fs.link .tmp ≠ some f
  lt : f < s.fs.contents.length

/-- the file of a `write` is the temporary file -/
def Writer.HoldsPart (fs : Files Path) : Writer → Prop
  | .idle => True
  | .opened _ fd => fs.link .tmp = some fd ∧ fs.content fd = []
  | .written content fd => fs.link .tmp = some fd ∧ FirstBytes content (fs.content fd)
  | .closed content => ∃ fd, fs.link .tmp = some fd ∧ FirstBytes content (fs.content fd)

/-- the first bytes of a content that was in place, filled up with zero bytes -/
def Filled (inPlace : List JsString) (buffer : List UInt8) : Prop :=
  ∃ c ∈ inPlace, ∃ n k, buffer = (bytesOf c).take n ++ List.replicate k 0

/-- the file that is read was moved into place -/
def Reader.HoldsPart (s : St) : Reader → Prop
  | .opened _ fd => Placed s fd
  | .filled buffer | .closed buffer => Filled s.inPlace buffer
  | _ => True

/-- nothing, or what was read of a content that was in place -/
def Result.Read (r : Result) : Prop := r.text = [] ∨ ∃ buffer, Filled r.inPlace buffer ∧ r.text = textOf buffer

structure FaultyInv (s : St) : Prop where
  tmp : s.fs.Valid .tmp
  path : ∀ f, s.fs.link .path = some f → Placed s f
  writer : s.writer.HoldsPart s.fs
  reader : s.reader.HoldsPart s
  results : ∀ r ∈ s.results, r.Read

/-- a content that is in place at the start was stored whole -/
theorem faultyInv_initial (content : Option JsString) : FaultyInv (.initial content) := by
  cases content with
  | none => exact ⟨nofun, nofun, trivial, trivial, nofun⟩
  | some c =>
    refine ⟨nofun, fun f hf => ?_, trivial, trivial, nofun⟩
    cases hf
    exact ⟨⟨c, List.mem_singleton.2 rfl, (bytesOf c).length, List.take_length.symm⟩, nofun, Nat.zero_lt_one⟩

/-! ## The writer -/

/-- what a step of the writer leaves alone -/
structure Leaves (s s' : St) : Prop where
  reader : s'.reader = s.reader
  results : s'.results = s.results
  inPlace : ∀ c ∈ s.inPlace, c ∈ s'.inPlace
  placed : ∀ f, Placed s f → Placed s' f

/-- **Writer rule.** A step of the writer has to account for the temporary file, the path and itself. -/
theorem FaultyInv.leaves {s s' : St} (hi : FaultyInv s) (hl : Leaves s s') (htmp : s'.fs.Valid .tmp)
    (hpath : ∀ f, s'.fs.link .path = some f → Placed s' f) (hwriter : s'.writer.HoldsPart s'.fs) : FaultyInv s' := by
  refine ⟨htmp, hpath, hwriter, ?_, hl.results ▸ hi.results⟩
  have hr := hi.reader
  rw [hl.reader]
  revert hr
  cases s.reader with
  | opened size fd => exact hl.placed fd
  | filled buffer | closed buffer => exact fun ⟨c, hc, hb⟩ => ⟨c, hl.inPlace c hc, hb⟩
  | _ => exact fun _ => trivial

/-- the files stay as they are -/
theorem FaultyInv.writer_only {s : St} (hi : FaultyInv s) {w : Writer} (hw : w.HoldsPart s.fs) :
    FaultyInv { s with writer := w } :=
  hi.leaves ⟨rfl, rfl, fun _ hc => hc, fun _ hp => ⟨hp.content, hp.not_tmp, hp.lt⟩⟩ hi.tmp
    (fun f hf => ⟨(hi.path f hf).content, (hi.path f hf).not_tmp, (hi.path f hf).lt⟩) hw

theorem opened_inv {s : St} (hi : FaultyInv s) (content : JsString) : FaultyInv
    { s with fs := (s.fs.openTrunc .tmp).1, writer := .opened content (s.fs.openTrunc .tmp).2 } := by
  obtain ⟨hlink, hlt, hempty⟩ := Files.openTrunc_opened hi.tmp
  have hplaced : ∀ f, Placed s f → Placed
      { s with fs := (s.fs.openTrunc .tmp).1, writer := .opened content (s.fs.openTrunc .tmp).2 } f := by
    intro f hp
    obtain ⟨hne, hlt', hc⟩ := Files.openTrunc_other hp.lt hp.not_tmp
    refine ⟨?_, ?_, hlt'⟩
    · obtain ⟨c, hc', hb⟩ := hp.content
      exact ⟨c, hc', hc.symm ▸ hb⟩
    · rw [hlink]
      exact fun h => hne (Option.some.inj h).symm
  refine hi.leaves ⟨rfl, rfl, fun _ hc => hc, hplaced⟩ (fun f hf => ?_) (fun f hf => ?_) ⟨hlink, hempty⟩
  · rw [hlink] at hf
    cases hf
    exact hlt
  · rw [Files.openTrunc_link (by decide)] at hf
    exact hplaced f (hi.path f hf)

/-- some bytes go into the temporary file -/
theorem stored_inv {s : St} (hi : FaultyInv s) {content : JsString} {fd : ℕ} (hpc : s.writer = .opened content fd)
    (stored : ℕ) {w : Writer} (hw : w = .written content fd ∨ w = .idle) :
    FaultyInv { s with fs := s.fs.write fd ((bytesOf content).take stored), writer := w } := by
  have hwriter := hi.writer
  rw [hpc] at hwriter
  obtain ⟨hlink, hempty⟩ := hwriter
  have hlen : (s.fs.write fd ((bytesOf content).take stored)).contents.length = s.fs.contents.length := List.length_set
  have hplaced : ∀ f, Placed s f → Placed { s with fs := s.fs.write fd ((bytesOf content).take stored), writer := w } f := by
    intro f hp
    have hne : f ≠ fd := fun he => hp.not_tmp (he ▸ hlink)
    obtain ⟨c, hc', hb⟩ := hp.content
    exact ⟨⟨c, hc', (Files.content_write_of_ne hne _).symm ▸ hb⟩, hp.not_tmp, hp.lt.trans_eq hlen.symm⟩
  refine hi.leaves ⟨rfl, rfl, fun _ hc => hc, hplaced⟩ (fun f hf => (hi.tmp f hf).trans_eq hlen.symm)
    (fun f hf => hplaced f (hi.path f hf)) ?_
  rcases hw with rfl | rfl
  · exact ⟨hlink, stored, Files.content_write_self (hi.tmp fd hlink) hempty _⟩
  · trivial

/-- the temporary file is moved into place -/
theorem moved_inv {s : St} (hi : FaultyInv s) {content : JsString} (hpc : s.writer = .closed content) :
    FaultyInv { s with fs := s.fs.rename .tmp .path, writer := .idle, inPlace := content :: s.inPlace } := by
  have hwriter := hi.writer
  rw [hpc] at hwriter
  obtain ⟨fd, hlink, hbytes⟩ := hwriter
  have hgone : (s.fs.rename .tmp .path).link .tmp = none := Files.rename_gone hlink (by decide)
  have hcontent : ∀ f, (s.fs.rename .tmp .path).content f = s.fs.content f :=
    fun f => congrArg (·.getD f []) Files.rename_contents
  have hlen : (s.fs.rename .tmp .path).contents.length = s.fs.contents.length := congrArg _ Files.rename_contents
  have hplaced : ∀ f, Placed s f →
      Placed { s with fs := s.fs.rename .tmp .path, writer := .idle, inPlace := content :: s.inPlace } f := by
    intro f hp
    obtain ⟨c, hc, hb⟩ := hp.content
    exact ⟨⟨c, List.mem_cons_of_mem _ hc, (hcontent f).symm ▸ hb⟩, by rw [hgone]; exact nofun, hp.lt.trans_eq hlen.symm⟩
  refine hi.leaves ⟨rfl, rfl, fun _ hc => List.mem_cons_of_mem _ hc, hplaced⟩ (fun f hf => ?_) (fun f hf => ?_) trivial
  · rw [hgone] at hf
    cases hf
  · rw [Files.rename_link hlink] at hf
    cases hf
    exact ⟨⟨content, List.mem_cons_self, (hcontent fd).symm ▸ hbytes⟩, by rw [hgone]; exact nofun,
      (hi.tmp fd hlink).trans_eq hlen.symm⟩

/-- the path is taken away -/
theorem removed_inv {s : St} (hi : FaultyInv s) : FaultyInv { s with fs := s.fs.unlink .path } := by
  have htmp : (s.fs.unlink .path).link .tmp = s.fs.link .tmp := Files.unlink_other (by decide)
  have hplaced : ∀ f, Placed s f → Placed { s with fs := s.fs.unlink .path } f :=
    fun f hp => ⟨hp.content, by rw [htmp]; exact hp.not_tmp, hp.lt⟩
  refine hi.leaves ⟨rfl, rfl, fun _ hc => hc, hplaced⟩ (fun f hf => hi.tmp f (htmp ▸ hf)) (fun f hf => ?_) ?_
  · rw [Files.unlink_gone] at hf
    cases hf
  · have hw := hi.writer
    cases hpc : s.writer <;> rw [hpc] at hw
    · trivial
    · exact ⟨htmp.trans hw.1, hw.2⟩
    · exact ⟨htmp.trans hw.1, hw.2⟩
    · obtain ⟨fd, hlink, hb⟩ := hw
      exact ⟨fd, htmp.trans hlink, hb⟩

/-! ## The reader -/

/-- the reader changes neither the files nor the writer -/
theorem FaultyInv.reader_only {s : St} (hi : FaultyInv s) (r : Reader) (hr : r.HoldsPart s) {results : List Result}
    (hresults : ∀ x ∈ results, x.Read) : FaultyInv { s with reader := r, results := results } := by
  refine ⟨hi.tmp, fun f hf => ⟨(hi.path f hf).content, (hi.path f hf).not_tmp, (hi.path f hf).lt⟩, hi.writer, ?_, hresults⟩
  cases r with
  | opened size fd => exact ⟨hr.content, hr.not_tmp, hr.lt⟩
  | filled buffer | closed buffer => exact hr
  | _ => trivial

theorem FaultyInv.returns {s : St} (hi : FaultyInv s) {text : JsString} (h : (⟨text, s.inPlace⟩ : Result).Read) :
    FaultyInv (s.returns text) :=
  hi.reader_only .idle trivial (List.forall_mem_cons.2 ⟨h, hi.results⟩)

/-- the buffer holds the first bytes of the file, filled up with zero bytes -/
theorem filled_bufferOf {s : St} {f : ℕ} (h : Placed s f) (size fetched : ℕ) :
    Filled s.inPlace (bufferOf (s.fs.content f) size fetched) := by
  obtain ⟨c, hc, n, hn⟩ := h.content
  have htake : (s.fs.content f).take (min fetched size) = (bytesOf c).take (min (min fetched size) n) := by
    rw [hn, List.take_take]
  exact ⟨c, hc, _, _, by unfold bufferOf; rw [htake]⟩

/-! ## Every run -/

/-- **Step lemma.** -/
theorem faulty_inv (s : St) (a : FaultyAction) (s' : St) (hi : FaultyInv s) (h : faultyStep s a = some s') :
    FaultyInv s' := by
  cases a with
  | write content ok =>
    simp only [faultyStep] at h
    split at h
    · cases ok <;> cases h
      · exact hi
      · exact opened_inv hi content
    · cases h
  | writeSync stored ok =>
    simp only [faultyStep] at h
    split at h
    · rename_i content fd hpc
      cases h
      exact stored_inv hi hpc stored (by cases ok <;> simp)
    · cases h
  | closeSync ok =>
    simp only [faultyStep] at h
    split at h
    · rename_i content fd hpc
      have hw := hi.writer
      rw [hpc] at hw
      cases ok <;> cases h
      · exact hi.writer_only trivial
      · exact hi.writer_only ⟨fd, hw⟩
    · cases h
  | renameSync ok =>
    simp only [faultyStep] at h
    split at h
    · rename_i content hpc
      cases ok <;> cases h
      · exact hi.writer_only trivial
      · exact moved_inv hi hpc
    · cases h
  | remove ok =>
    simp only [faultyStep] at h
    split at h
    · cases ok <;> cases h
      · exact hi
      · exact removed_inv hi
    · cases h
  | writerDies =>
    cases h
    exact hi.writer_only trivial
  | statSync ok =>
    simp only [faultyStep] at h
    split at h
    · split at h <;> cases h
      · exact hi.reader_only (.stated _) trivial hi.results
      · exact hi.returns (Or.inl rfl)
    · cases h
  | openSync ok =>
    simp only [faultyStep] at h
    split at h
    · split at h <;> cases h
      · rename_i size _ _ _ fd hfd
        exact hi.reader_only (.opened size fd) (hi.path fd hfd) hi.results
      · exact hi.returns (Or.inl rfl)
    · cases h
  | readSync fetched ok =>
    simp only [faultyStep] at h
    split at h
    · rename_i size fd hpc
      have hr := hi.reader
      rw [hpc] at hr
      cases ok <;> cases h
      · exact hi.returns (Or.inl rfl)
      · exact hi.reader_only (.filled _) (filled_bufferOf hr size fetched) hi.results
    · cases h
  | closeRead ok =>
    simp only [faultyStep] at h
    split at h
    · rename_i buffer hpc
      have hr := hi.reader
      rw [hpc] at hr
      cases ok <;> cases h
      · exact hi.returns (Or.inl rfl)
      · exact hi.returns (Or.inr ⟨buffer, hr, rfl⟩)
    · cases h
  | readerDies =>
    cases h
    exact hi.reader_only .idle trivial hi.results

/-- a step ends one read at most -/
theorem faultyStep_results {s s' : St} {a : FaultyAction} (h : faultyStep s a = some s') :
    s'.results = s.results ∨ ∃ r, s'.results = r :: s.results ∧ r.inPlace = s'.inPlace := by
  cases a with
  | write _ ok | remove ok =>
    simp only [faultyStep] at h
    split at h
    · left
      split_ifs at h <;> cases h <;> rfl
    · cases h
  | writeSync _ _ | closeSync _ =>
    simp only [faultyStep] at h
    split at h <;> cases h
    exact Or.inl rfl
  | renameSync ok =>
    simp only [faultyStep] at h
    split at h
    · left
      split_ifs at h <;> cases h <;> rfl
    · cases h
  | writerDies | readerDies =>
    cases h
    exact Or.inl rfl
  | statSync ok | openSync ok =>
    simp only [faultyStep] at h
    split at h
    · split at h
      · cases h
        exact Or.inl rfl
      · cases h
        exact Or.inr ⟨_, rfl, rfl⟩
    · cases h
  | readSync _ ok =>
    simp only [faultyStep] at h
    split at h
    · cases h
      split_ifs
      · exact Or.inl rfl
      · exact Or.inr ⟨_, rfl, rfl⟩
    · cases h
  | closeRead ok =>
    simp only [faultyStep] at h
    split at h <;> cases h
    exact Or.inr ⟨_, rfl, rfl⟩

/-- what has been in place stays known -/
theorem faultyStep_inPlace {s s' : St} {a : FaultyAction} (h : faultyStep s a = some s') : s.inPlace ⊆ s'.inPlace := by
  cases a with
  | write _ ok | remove ok =>
    simp only [faultyStep] at h
    split at h
    · split_ifs at h <;> cases h <;> exact List.Subset.refl _
    · cases h
  | writeSync _ _ | closeSync _ =>
    simp only [faultyStep] at h
    split at h <;> cases h
    exact List.Subset.refl _
  | renameSync ok =>
    simp only [faultyStep] at h
    split at h
    · split_ifs at h <;> cases h
      · exact List.subset_cons_self _ _
      · exact List.Subset.refl _
    · cases h
  | writerDies | readerDies =>
    cases h
    exact List.Subset.refl _
  | statSync ok | openSync ok =>
    simp only [faultyStep] at h
    split at h
    · split at h <;> cases h <;> exact List.Subset.refl _
    · cases h
  | readSync _ ok =>
    simp only [faultyStep] at h
    split at h
    · cases h
      split_ifs <;> exact List.Subset.refl _
    · cases h
  | closeRead ok =>
    simp only [faultyStep] at h
    split at h <;> cases h
    exact List.Subset.refl _

/-! ### The contents -/

/-- what was given to a `write` meets a condition, so everything that comes of it does -/
structure Given (P : JsString → Prop) (s : St) : Prop where
  inPlace : ∀ c ∈ s.inPlace, P c
  writer : ∀ c fd, s.writer = .opened c fd ∨ s.writer = .written c fd ∨ s.writer = .closed c → P c
  results : ∀ r ∈ s.results, ∀ c ∈ r.inPlace, P c

/-- every `write` is given a content that meets the condition -/
def FaultyAction.Gives (P : JsString → Prop) : FaultyAction → Prop
  | .write content _ => P content
  | _ => True

theorem given_initial {P : JsString → Prop} {content : Option JsString} (h : ∀ c, content = some c → P c) :
    Given P (.initial content) := by
  cases content with
  | none => exact ⟨nofun, fun _ _ h => (nomatch h), nofun⟩
  | some c => exact ⟨List.forall_mem_singleton.2 (h c rfl), fun _ _ h => (nomatch h), nofun⟩

theorem Given.mono {P Q : JsString → Prop} (h : ∀ c, P c → Q c) {s : St} (hg : Given P s) : Given Q s :=
  ⟨fun c hc => h c (hg.inPlace c hc), fun c fd hw => h c (hg.writer c fd hw), fun r hr c hc => h c (hg.results r hr c hc)⟩

theorem Given.returns {P : JsString → Prop} {s : St} (h : Given P s) (text : JsString) : Given P (s.returns text) :=
  ⟨h.inPlace, h.writer, List.forall_mem_cons.2 ⟨h.inPlace, h.results⟩⟩

theorem given_step {P : JsString → Prop} (s : St) (a : FaultyAction) (s' : St) (hg : Given P s) (ha : a.Gives P)
    (h : faultyStep s a = some s') : Given P s' := by
  have hidle : ∀ fs : Files Path, Given P { s with fs := fs, writer := .idle } :=
    fun fs => ⟨hg.inPlace, fun _ _ h => (nomatch h), hg.results⟩
  have hreader : ∀ r : Reader, Given P { s with reader := r } := fun r => ⟨hg.inPlace, hg.writer, hg.results⟩
  cases a with
  | write content ok =>
    simp only [faultyStep] at h
    split at h
    · cases ok <;> cases h
      · exact hg
      · exact ⟨hg.inPlace, fun c fd hc => by simp at hc; exact hc.1 ▸ ha, hg.results⟩
    · cases h
  | writeSync stored ok =>
    simp only [faultyStep] at h
    split at h
    · rename_i content fd hpc
      cases ok <;> cases h
      · exact hidle _
      · exact ⟨hg.inPlace, fun c fd hc => by simp at hc; exact hc.1 ▸ hg.writer content _ (Or.inl hpc), hg.results⟩
    · cases h
  | closeSync ok =>
    simp only [faultyStep] at h
    split at h
    · rename_i content fd hpc
      cases ok <;> cases h
      · exact hidle _
      · exact ⟨hg.inPlace, fun c fd' hc => by simp at hc; exact hc ▸ hg.writer content fd (Or.inr (Or.inl hpc)), hg.results⟩
    · cases h
  | renameSync ok =>
    simp only [faultyStep] at h
    split at h
    · rename_i content hpc
      have hcontent : P content := hg.writer content 0 (Or.inr (Or.inr hpc))
      cases ok <;> cases h
      · exact hidle _
      · exact ⟨List.forall_mem_cons.2 ⟨hcontent, hg.inPlace⟩, fun _ _ h => (nomatch h), hg.results⟩
    · cases h
  | remove ok =>
    simp only [faultyStep] at h
    split at h
    · cases ok <;> cases h
      · exact hg
      · exact ⟨hg.inPlace, hg.writer, hg.results⟩
    · cases h
  | writerDies =>
    cases h
    exact hidle _
  | statSync ok =>
    simp only [faultyStep] at h
    split at h
    · split at h <;> cases h
      · exact hreader _
      · exact hg.returns _
    · cases h
  | openSync ok =>
    simp only [faultyStep] at h
    split at h
    · split at h <;> cases h
      · exact hreader _
      · exact hg.returns _
    · cases h
  | readSync fetched ok =>
    simp only [faultyStep] at h
    split at h
    · cases ok <;> cases h
      · exact hg.returns _
      · exact hreader _
    · cases h
  | closeRead ok =>
    simp only [faultyStep] at h
    split at h
    · cases h
      exact hg.returns _
    · cases h
  | readerDies =>
    cases h
    exact hreader _

/-! ## Main result -/

/-- the calls of a `write` and of a `read` after it, when nothing goes wrong and nothing comes in between -/
def writeAndRead (content : JsString) : List FaultyAction :=
  [.write content true, .writeSync (bytesOf content).length true, .closeSync true, .renameSync true, .statSync true,
    .openSync true, .readSync (bytesOf content).length true, .closeRead true]

/-- whatever stands in the temporary file -/
theorem writeAndRead_runs {s : St} (hi : FaultyInv s) (hw : s.writer = .idle) (hr : s.reader = .idle) (content : JsString) :
    ∃ s', Steps.run faultyStep s (writeAndRead content) = some s' ∧
      s'.results = ⟨content, content :: s.inPlace⟩ :: s.results := by
  obtain ⟨fs, writer, reader, inPlace, results⟩ := s
  cases hw
  cases hr
  obtain ⟨hlink, hlt, hempty⟩ := Files.openTrunc_opened hi.tmp
  rcases ho : fs.openTrunc .tmp with ⟨fs', fd⟩
  simp only [ho] at hlink hlt hempty
  have hbytes : (fs'.write fd (bytesOf content)).content fd = bytesOf content :=
    Files.content_write_self hlt hempty _
  have hpath : ((fs'.write fd (bytesOf content)).rename .tmp .path).link .path = some fd := Files.rename_link hlink
  have hplace : ((fs'.write fd (bytesOf content)).rename .tmp .path).content fd = bytesOf content :=
    (congrArg (·.getD fd []) Files.rename_contents).trans hbytes
  have hbuffer : bufferOf (bytesOf content) (bytesOf content).length (bytesOf content).length = bytesOf content := by
    simp [bufferOf]
  refine ⟨⟨(fs'.write fd (bytesOf content)).rename .tmp .path, .idle, .idle, content :: inPlace,
    ⟨content, content :: inPlace⟩ :: results⟩, ?_, rfl⟩
  have htext := textOf_bytesOf content
  simp only [writeAndRead, Steps.run, faultyStep, ho, List.take_length, if_true, hpath, Files.size, hplace, hbuffer,
    St.returns, htext]

/-- what a read returns is a content that was in place, whole, or `JSON.parse` throws on it -/
theorem read_whole {s : St} (hi : FaultyInv s) (hg : Given Document s) :
    ∀ r ∈ s.results, r.text ∈ r.inPlace ∨ jsonParse r.text = none := by
  intro r hr
  rcases hi.results r hr with hnil | ⟨buffer, ⟨c, hc, n, k, rfl⟩, htext⟩
  · right
    rw [hnil]
    rfl
  · rcases textOf_filled (hg.results r hr c hc) n k with hwhole | hnone
    · left
      rw [htext, hwhole]
      exact hc
    · right
      rw [htext]
      exact hnone

/-- **A file is never misread.** Whatever calls fail, in whatever order the calls of the two processes come and wherever
the processes die: if the contents that are written are JSON arrays and objects, what a read returns is a content that was
in place by its end, whole, or `JSON.parse` throws on it. And a write that gets through undisturbed is read back,
whatever an earlier one has left behind. -/
theorem never_misread (content : Option JsString) (actions : List FaultyAction) (s : St)
    (h : Steps.run faultyStep (.initial content) actions = some s) (hcontent : ∀ c, content = some c → Document c)
    (hwrites : ∀ a ∈ actions, a.Gives Document) :
    (∀ r ∈ s.results, r.text ∈ r.inPlace ∨ jsonParse r.text = none) ∧
      (s.writer = .idle → s.reader = .idle → ∀ c, ∃ s', Steps.run faultyStep s (writeAndRead c) = some s' ∧
        s'.results = ⟨c, c :: s.inPlace⟩ :: s.results) := by
  have hi : FaultyInv s := Steps.run_inv' faulty_inv (faultyInv_initial content) h
  have hg : Given Document s :=
    Steps.run_inv given_step (given_initial hcontent) (Steps.along_of_forall hwrites) h
  exact ⟨read_whole hi hg, fun hw hr c => writeAndRead_runs hi hw hr c⟩

/-- a read that asks for the size of an old list, while a write of a new one is moved into place after storing 5 bytes -/
def faultyRun : List FaultyAction :=
  [.statSync true, .write (js "[1,2,3]") true, .writeSync 5 true, .closeSync true, .renameSync true, .openSync true,
    .readSync 9 true, .closeRead true]

theorem never_misread_short : ∃ s, Steps.run faultyStep (.initial (some (js "[4,5,6]"))) faultyRun = some s ∧
    s.results.map Result.text = [js "[1,2," ++ [0, 0]] ∧
    ∀ r ∈ s.results, r.text ∈ r.inPlace ∨ jsonParse r.text = none := by
  have hold : Document (js "[4,5,6]") := ⟨Option.isSome_iff_exists.1 (by decide +kernel), unit '[', js "4,5,6", unit ']',
    rfl, Or.inl rfl, rfl⟩
  have hnew : Document (js "[1,2,3]") := ⟨Option.isSome_iff_exists.1 (by decide +kernel), unit '[', js "1,2,3", unit ']',
    rfl, Or.inl rfl, rfl⟩
  have htexts : (Steps.run faultyStep (.initial (some (js "[4,5,6]"))) faultyRun).map (fun s => s.results.map Result.text) =
      some [js "[1,2," ++ [0, 0]] := by decide +kernel
  obtain ⟨s, hs, htext⟩ := Option.map_eq_some_iff.1 htexts
  refine ⟨s, hs, htext, (never_misread (some (js "[4,5,6]")) faultyRun s hs ?_ ?_).1⟩
  · rintro c ⟨⟩
    exact hold
  · simp only [faultyRun, List.forall_mem_cons, FaultyAction.Gives]
    exact ⟨trivial, hnew, trivial, trivial, trivial, trivial, trivial, trivial, nofun⟩

end JsonStore

end ShadowsocksOhos
