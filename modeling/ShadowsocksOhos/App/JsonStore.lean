/-
`JsonStore.read` and `JsonStore.write` on one name, in two processes (the UI and the VPN extension). Each call of the file
system is one step, and the steps of the two come in any order; calls succeed in full. The writer writes to a new file
and moves it over the path, so a file that was ever read is never written again; but the reader asks for the size by the
path, before it opens it.

- `untorn`: as long as the file that is opened has the size that was asked for, a read returns one of the contents that
were in place.
- `torn`: a write between the two calls.
-/
import ShadowsocksOhos.App.Utf8
import ShadowsocksOhos.Core.Files
import ShadowsocksOhos.Core.Steps

namespace ShadowsocksOhos

namespace JsonStore

/-! ## State -/

/-- the two paths of a name -/
inductive Path where
  /-- `pathFor` -/
  | path
  /-- `path` with `.tmp` -/
  | tmp
deriving DecidableEq, Repr

/-- where a `write` of this content is -/
inductive Writer where
  | idle
  /-- `openSync` has returned this file -/
  | opened (content : JsString) (fd : ℕ)
  /-- `writeSync` has returned -/
  | written (content : JsString) (fd : ℕ)
  /-- `closeSync` has returned -/
  | closed (content : JsString)

/-- where a `read` is -/
inductive Reader where
  | idle
  /-- `statSync` has returned this size, and the buffer is allocated -/
  | stated (size : ℕ)
  /-- `openSync` has returned this file -/
  | opened (size fd : ℕ)
  /-- `readSync` has filled the buffer -/
  | filled (buffer : List UInt8)
  /-- `closeSync` has returned -/
  | closed (buffer : List UInt8)

/-- a read of an existing file: what it returned, and the contents that were in place until then -/
structure Result where
  text : JsString
  inPlace : List JsString
deriving DecidableEq, Repr

structure St where
  fs : Files Path
  writer : Writer
  reader : Reader
  /-- the contents that have been in place -/
  inPlace : List JsString
  results : List Result

/-- the bytes that are written for a content -/
def bytesOf (content : JsString) : List UInt8 := uint8Array (encodeUtf8 content)

/-- the string that is made of a buffer -/
def textOf (buffer : List UInt8) : JsString := decodeUtf8 (numbers buffer)

/-- nothing stored yet, or this content -/
def St.initial : Option JsString → St
  | none => ⟨⟨[], []⟩, .idle, .idle, [], []⟩
  | some content => ⟨⟨[(.path, 0)], [bytesOf content]⟩, .idle, .idle, [content], []⟩

/-! ## Steps -/

def writerStep (s : St) : Option St :=
  match s.writer with
  | .idle => none
  | .opened content fd => some { s with fs := s.fs.write fd (bytesOf content), writer := .written content fd }
  | .written content _ => some { s with writer := .closed content }
  | .closed content =>
    some { s with
      fs := s.fs.rename .tmp .path
      writer := .idle
      inPlace := content :: s.inPlace }

def readerStep (s : St) : Option St :=
  match s.reader with
  | .idle =>
    -- without a file the read returns the empty string
    match s.fs.link .path with
    | some f => some { s with reader := .stated (s.fs.size f) }
    | none => some s
  | .stated size =>
    match s.fs.link .path with
    | some fd => some { s with reader := .opened size fd }
    | none => some { s with reader := .idle }
  | .opened size fd => some { s with reader := .filled (s.fs.read fd size) }
  | .filled buffer => some { s with reader := .closed buffer }
  | .closed buffer =>
    some { s with
      reader := .idle
      results := ⟨textOf buffer, s.inPlace⟩ :: s.results }

inductive Action where
  /-- `write` is called: `openSync` of the temporary path -/
  | write (content : JsString)
  /-- the `write` goes on -/
  | writer
  /-- `read` is called, or goes on -/
  | reader
deriving DecidableEq, Repr

def step (s : St) : Action → Option St
  | .write content =>
    match s.writer with
    | .idle =>
      let (fs, fd) := s.fs.openTrunc .tmp
      some { s with fs := fs, writer := .opened content fd }
    | _ => none
  | .writer => writerStep s
  | .reader => readerStep s

/-- the file that is opened next has the size that was asked for -/
def Reader.sameSize (fs : Files Path) : Reader → Bool
  | .stated size => (fs.link .path).all fun f => fs.size f = size
  | _ => true

def SameSize (s : St) : Action → Prop
  | .reader => s.reader.sameSize s.fs = true
  | _ => True

instance (s : St) : (a : Action) → Decidable (SameSize s a)
  | .reader => inferInstanceAs (Decidable (_ = _))
  | .write _ | .writer => inferInstanceAs (Decidable True)

/-! ## The bytes of a content -/

/-- **A content that is read whole comes back.** -/
theorem textOf_bytesOf (content : JsString) : textOf (bytesOf content) = content := by
  unfold textOf bytesOf
  rw [numbers_uint8Array (encodeUtf8_lt content), decode_encode]

/-! ## Invariant -/

/-- a file that was moved into place: it holds one of the contents, and is not the temporary file -/
structure Published (s : St) (f : ℕ) : Prop where
  content : ∃ c ∈ s.inPlace, s.fs.content f = bytesOf c
  not_tmp : s.fs.link .tmp ≠ some f
  lt : f < s.fs.contents.length

/-- the file of a `write` is the temporary file -/
def Writer.Holds (fs : Files Path) : Writer → Prop
  | .idle => True
  | .opened _ fd => fs.link .tmp = some fd ∧ fs.content fd = []
  | .written content fd => fs.link .tmp = some fd ∧ fs.content fd = bytesOf content
  | .closed content => ∃ fd, fs.link .tmp = some fd ∧ fs.content fd = bytesOf content

/-- what a `read` has or will get is one of the contents -/
def Reader.Holds (s : St) : Reader → Prop
  | .opened size fd => Published s fd ∧ s.fs.size fd = size
  | .filled buffer | .closed buffer => ∃ c ∈ s.inPlace, buffer = bytesOf c
  | _ => True

structure Inv (s : St) : Prop where
  tmp : s.fs.Valid .tmp
  path : ∀ f, s.fs.link .path = some f → Published s f
  writer : s.writer.Holds s.fs
  reader : s.reader.Holds s
  results : ∀ r ∈ s.results, r.text ∈ r.inPlace

theorem inv_initial (content : Option JsString) : Inv (.initial content) := by
  cases content with
  | none => exact ⟨nofun, nofun, trivial, trivial, nofun⟩
  | some c =>
    refine ⟨nofun, fun f hf => ?_, trivial, trivial, nofun⟩
    cases hf
    exact ⟨⟨c, List.mem_singleton.2 rfl, rfl⟩, nofun, Nat.zero_lt_one⟩

/-- a step of the writer that leaves the files in place alone -/
structure Keeps (s s' : St) : Prop where
  inPlace : ∀ c ∈ s.inPlace, c ∈ s'.inPlace
  published : ∀ f, Published s f → Published s' f ∧ s'.fs.content f = s.fs.content f

theorem Keeps.reader {s s' : St} (hk : Keeps s s') {r : Reader} (h : r.Holds s) : r.Holds s' := by
  cases r with
  | opened size fd =>
    obtain ⟨hp, hs⟩ := h
    obtain ⟨hp', hc⟩ := hk.published fd hp
    refine ⟨hp', ?_⟩
    rw [← hs]
    exact congrArg List.length hc
  | filled buffer =>
    obtain ⟨c, hc, hb⟩ := h
    exact ⟨c, hk.inPlace c hc, hb⟩
  | closed buffer =>
    obtain ⟨c, hc, hb⟩ := h
    exact ⟨c, hk.inPlace c hc, hb⟩
  | _ => trivial

/-! ## The writer -/

theorem write_inv {s : St} (hi : Inv s) (content : JsString) :
    Inv { s with fs := (s.fs.openTrunc .tmp).1, writer := .opened content (s.fs.openTrunc .tmp).2 } := by
  obtain ⟨hlink, hlt, hempty⟩ := Files.openTrunc_opened hi.tmp
  have hkeeps : Keeps s { s with fs := (s.fs.openTrunc .tmp).1, writer := .opened content (s.fs.openTrunc .tmp).2 } := by
    refine ⟨fun c hc => hc, fun f hp => ?_⟩
    obtain ⟨hne, hlt', hc⟩ := Files.openTrunc_other hp.lt hp.not_tmp
    refine ⟨⟨?_, ?_, hlt'⟩, hc⟩
    · obtain ⟨c, hc', hb⟩ := hp.content
      exact ⟨c, hc', hc.trans hb⟩
    · rw [hlink]
      exact fun h => hne (Option.some.inj h).symm
  refine ⟨fun f hf => ?_, fun f hf => ?_, ⟨hlink, hempty⟩, hkeeps.reader hi.reader, hi.results⟩
  · rw [hlink] at hf
    cases hf
    exact hlt
  · rw [Files.openTrunc_link (by decide)] at hf
    exact (hkeeps.published f (hi.path f hf)).1

/-- the bytes go into the temporary file -/
theorem written_inv {s : St} (hi : Inv s) {content : JsString} {fd : ℕ} (hpc : s.writer = .opened content fd) :
    Inv { s with fs := s.fs.write fd (bytesOf content), writer := .written content fd } := by
  have hw := hi.writer
  rw [hpc] at hw
  obtain ⟨hlink, hempty⟩ := hw
  have hlen : (s.fs.write fd (bytesOf content)).contents.length = s.fs.contents.length := List.length_set
  have hkeeps : Keeps s { s with fs := s.fs.write fd (bytesOf content), writer := .written content fd } := by
    refine ⟨fun c hc => hc, fun f hp => ?_⟩
    have hne : f ≠ fd := fun he => hp.not_tmp (he ▸ hlink)
    have hc : (s.fs.write fd (bytesOf content)).content f = s.fs.content f := Files.content_write_of_ne hne _
    refine ⟨⟨?_, hp.not_tmp, ?_⟩, hc⟩
    · obtain ⟨c, hc', hb⟩ := hp.content
      exact ⟨c, hc', hc.trans hb⟩
    · exact hp.lt.trans_eq hlen.symm
  refine ⟨fun f hf => (hi.tmp f hf).trans_eq hlen.symm, fun f hf => (hkeeps.published f (hi.path f hf)).1,
    ⟨hlink, Files.content_write_self (hi.tmp fd hlink) hempty _⟩, hkeeps.reader hi.reader, hi.results⟩

/-- the temporary file is moved into place -/
theorem renamed_inv {s : St} (hi : Inv s) {content : JsString} (hpc : s.writer = .closed content) :
    Inv ⟨s.fs.rename .tmp .path, .idle, s.reader, content :: s.inPlace, s.results⟩ := by
  have hw := hi.writer
  rw [hpc] at hw
  obtain ⟨fd, hlink, hbytes⟩ := hw
  have hgone : (s.fs.rename .tmp .path).link .tmp = none := Files.rename_gone hlink (by decide)
  have hcontent : ∀ f, (s.fs.rename .tmp .path).content f = s.fs.content f :=
    fun f => congrArg (·.getD f []) Files.rename_contents
  have hlen : (s.fs.rename .tmp .path).contents.length = s.fs.contents.length := congrArg _ Files.rename_contents
  have hkeeps : Keeps s ⟨s.fs.rename .tmp .path, .idle, s.reader, content :: s.inPlace, s.results⟩ := by
    refine ⟨fun c hc => List.mem_cons_of_mem _ hc, fun f hp => ⟨⟨?_, ?_, ?_⟩, hcontent f⟩⟩
    · obtain ⟨c, hc, hb⟩ := hp.content
      exact ⟨c, List.mem_cons_of_mem _ hc, (hcontent f).trans hb⟩
    · rw [hgone]
      exact nofun
    · exact hp.lt.trans_eq hlen.symm
  refine ⟨fun f hf => ?_, fun f hf => ?_, trivial, hkeeps.reader hi.reader, hi.results⟩
  · rw [hgone] at hf
    cases hf
  · rw [Files.rename_link hlink] at hf
    cases hf
    refine ⟨⟨content, List.mem_cons_self, (hcontent fd).trans hbytes⟩, ?_, (hi.tmp fd hlink).trans_eq hlen.symm⟩
    rw [hgone]
    exact nofun

theorem writerStep_inv {s s' : St} (hi : Inv s) (h : writerStep s = some s') : Inv s' := by
  unfold writerStep at h
  split at h
  · cases h
  · rename_i content fd hpc
    cases h
    exact written_inv hi hpc
  · rename_i content fd hpc
    cases h
    have hw := hi.writer
    rw [hpc] at hw
    have hkeeps : Keeps s { s with writer := .closed content } :=
      ⟨fun c hc => hc, fun f hp => ⟨⟨hp.content, hp.not_tmp, hp.lt⟩, rfl⟩⟩
    exact ⟨hi.tmp, fun f hf => (hkeeps.published f (hi.path f hf)).1, ⟨fd, hw⟩, hkeeps.reader hi.reader, hi.results⟩
  · rename_i content hpc
    cases h
    exact renamed_inv hi hpc

/-! ## The reader -/

theorem readerStep_inv {s s' : St} (hi : Inv s) (hsize : SameSize s .reader) (h : readerStep s = some s') : Inv s' := by
  have hr := hi.reader
  -- the reader does not change the files
  have hfs : ∀ r results, (∀ x ∈ results, x.text ∈ x.inPlace) → r.Holds s → Inv ⟨s.fs, s.writer, r, s.inPlace, results⟩ := by
    intro r results hres hrs
    have hkeeps : Keeps s ⟨s.fs, s.writer, r, s.inPlace, results⟩ :=
      ⟨fun c hc => hc, fun f hp => ⟨⟨hp.content, hp.not_tmp, hp.lt⟩, rfl⟩⟩
    exact ⟨hi.tmp, fun f hf => (hkeeps.published f (hi.path f hf)).1, hi.writer, hkeeps.reader hrs, hres⟩
  unfold readerStep at h
  split at h
  · split at h
    · cases h
      exact hfs _ _ hi.results trivial
    · cases h
      exact hi
  · rename_i size hpc
    split at h
    · rename_i fd hfd
      cases h
      simp only [SameSize, Reader.sameSize, hpc, hfd, Option.all_some, decide_eq_true_eq] at hsize
      exact hfs _ _ hi.results ⟨hi.path fd hfd, hsize⟩
    · cases h
      exact hfs _ _ hi.results trivial
  · rename_i size fd hpc
    rw [hpc] at hr
    obtain ⟨hp, rfl⟩ := hr
    obtain ⟨c, hc, hb⟩ := hp.content
    cases h
    exact hfs _ _ hi.results ⟨c, hc, Files.read_size.trans hb⟩
  · rename_i buffer hpc
    rw [hpc] at hr
    cases h
    exact hfs _ _ hi.results hr
  · rename_i buffer hpc
    rw [hpc] at hr
    obtain ⟨c, hc, rfl⟩ := hr
    cases h
    refine hfs _ _ (fun x hx => ?_) trivial
    rcases List.mem_cons.1 hx with rfl | hx
    · rw [textOf_bytesOf]
      exact hc
    · exact hi.results x hx

theorem inv_step (s : St) (a : Action) (s' : St) (hi : Inv s) (hsize : SameSize s a) (h : step s a = some s') :
    Inv s' := by
  cases a with
  | write content =>
    simp only [step] at h
    split at h
    · cases h
      exact write_inv hi content
    · cases h
  | writer => exact writerStep_inv hi h
  | reader => exact readerStep_inv hi hsize h

/-! ## Main result -/

/-- **No read is torn as long as the file that is opened has the size that was asked for**: it returns a content that was
in place by its end, whole. -/
theorem untorn (content : Option JsString) (actions : List Action) (s : St)
    (h : Steps.run step (.initial content) actions = some s) (hsize : Steps.Along step SameSize (.initial content) actions) :
    ∀ r ∈ s.results, r.text ∈ r.inPlace :=
  (Steps.run_inv inv_step (inv_initial content) hsize h).results

/-- a write of this content, from its beginning to its end -/
def wholeWrite (content : String) : List Action := .write (js content) :: List.replicate 3 .writer

/-- a write between two reads, and one of a content of the same length in the middle of a third -/
def quietRun : List Action :=
  List.replicate 5 .reader ++ wholeWrite "xyz" ++ List.replicate 5 .reader ++ [.reader] ++ wholeWrite "uvw" ++
    List.replicate 4 .reader

theorem untorn_quiet : ∃ s, Steps.run step (.initial (some (js "ab"))) quietRun = some s ∧ s.results.length = 3 ∧
    ∀ r ∈ s.results, r.text ∈ r.inPlace :=
  ⟨_, rfl, rfl, untorn (some (js "ab")) quietRun _ rfl (by decide)⟩

/-- **A torn read**: the size is that of the old content, the bytes are those of the new one. -/
theorem torn : ¬ ∀ (content : Option JsString) (actions : List Action) (s : St),
    Steps.run step (.initial content) actions = some s → ∀ r ∈ s.results, r.text ∈ r.inPlace := by
  intro h
  have hr := h (some (js "ab")) ([.reader] ++ wholeWrite "xyz" ++ List.replicate 4 .reader) _ rfl
  revert hr
  decide

end JsonStore

end ShadowsocksOhos
