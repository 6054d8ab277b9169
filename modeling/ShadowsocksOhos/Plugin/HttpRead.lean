/-
The download direction of HTTP simple-obfs. Every run polls `HttpObfs.pollRead` with any sequence of caller buffers
that have room for at least one byte, over any stream and any way the inner socket cuts it into reads.

- `Stands`: where the wrapper stands in the stream. Either it is still collecting the header, all it has read is in
  `response_scratch`, no terminator is in there and nothing has been delivered; or the terminator was found, and what
  has been delivered, what is held in `leftover` and what has not been read are together the rest of the stream.
- `pollRead_gives`: one poll keeps this, delivers nothing only together with a pending answer, an error or the end of
  the stream, and fails only when the header is too long.
- `pollRead_prompt`: one poll is pending only when the inner socket is.
- `read_exact`: the body is delivered exactly, zero bytes mean the end, and a stream without terminator is refused.
-/
import ShadowsocksOhos.Core.Answering
import ShadowsocksOhos.Core.Prompt
import ShadowsocksOhos.Plugin.HttpObfs

namespace ShadowsocksOhos

open Polled Occurs

namespace HttpObfs

/-- the bytes of the body that wait for the next poll -/
def held (o : HttpObfs) : List UInt8 := o.leftover.drop o.leftoverOff

theorem advance_held (o : HttpObfs) (n : ℕ) : (o.advance n).held = o.held.drop n := by
  unfold advance
  split_ifs with h
  · simp only [held, List.drop_nil, List.drop_drop]
    exact (List.drop_eq_nil_of_le h).symm
  · simp only [held, List.drop_drop]

@[simp] theorem advance_recv (o : HttpObfs) (n : ℕ) : (o.advance n).recv = o.recv := by
  unfold advance; split_ifs <;> rfl

@[simp] theorem advance_firstResponse (o : HttpObfs) (n : ℕ) : (o.advance n).firstResponse = o.firstResponse := by
  unfold advance; split_ifs <;> rfl

/-- still collecting the header -/
structure InHeader (stream : List UInt8) (o : HttpObfs) : Prop where
  first : o.firstResponse = true
  leftover : o.leftover = [] ∧ o.leftoverOff = 0
  read : stream = o.responseScratch ++ o.recv.rest
  none : findDoubleCrlf o.responseScratch = none

/-- the terminator of the header was found at `i`, and `out` has been delivered -/
structure InBody (stream out : List UInt8) (o : HttpObfs) (i : ℕ) : Prop where
  first : o.firstResponse = false
  found : FirstOccurs crlfCrlf stream i
  body : stream.drop (i + 4) = out ++ o.held ++ o.recv.rest

/-- where the wrapper stands in the stream after delivering `out`; unless a header was refused before, the header read
so far is within the limit -/
inductive Stands (stream out : List UInt8) (refused : Prop) (o : HttpObfs) : Prop where
  | header (hh : InHeader stream o) (ho : out = []) (hb : o.responseScratch.length ≤ maxHeader ∨ refused)
  | body (i : ℕ) (hb : InBody stream out o i) (hi : i + 4 ≤ maxHeader + headerRead ∨ refused)

/-- what one poll gives after `out` was delivered -/
structure Gives (stream out : List UInt8) (refused : Prop) (r : Poll (Except IoError (List UInt8)) × HttpObfs) :
    Prop where
  stands : Stands stream (out ++ r.1.bytes) (refused ∨ r.1 = .ready (.error headerTooLong)) r.2
  recv : RecvOk r.2.recv
  zero : r.1 = .ready (.ok []) → r.2.recv.ended = true ∧ r.2.held = []
  error : ∀ e, r.1 = .ready (.error e) → e = headerTooLong ∧ InHeader stream r.2 ∧
    maxHeader < r.2.responseScratch.length ∧ (r.2.responseScratch.length ≤ maxHeader + headerRead ∨ refused)

/-! ## One poll -/

theorem InBody.passthrough {stream out : List UInt8} {o : HttpObfs} {i room : ℕ} (h : InBody stream out o i)
    (hheld : o.held = []) (hr : 0 < room) (hrecv : RecvOk o.recv) {refused : Prop}
    (hi : i + 4 ≤ maxHeader + headerRead ∨ refused) : Gives stream out refused (o.passthrough room) := by
  have hbody : stream.drop (i + 4) = out ++ o.recv.rest := by simpa [hheld] using h.body
  unfold HttpObfs.passthrough
  rcases hp : o.recv.pollRead room with ⟨_ | e | bytes, recv⟩
  · obtain ⟨hrest, -⟩ := Source.pollRead_pending hp
    refine ⟨.body i ⟨h.first, h.found, ?_⟩ (hi.imp_right Or.inl), hrecv.read hp, by simp, by simp⟩
    simpa [held, hrest] using h.body
  · exact absurd hp (Source.pollRead_no_error hrecv.1)
  · obtain ⟨hrest, -, -, hzero⟩ := Source.pollRead_ok hp
    refine ⟨.body i ⟨h.first, h.found, ?_⟩ (hi.imp_right Or.inl), hrecv.read hp, fun hz => ?_, by simp⟩
    · have : o.leftover.drop o.leftoverOff = [] := hheld
      simp only [held, this, Poll.bytes_ok, hbody, hrest, List.append_nil, List.append_assoc]
    · simp only [Poll.ready.injEq, Except.ok.injEq] at hz
      exact ⟨(hzero hr hz).2, hheld⟩

/-- the terminator has just been found in what was collected -/
theorem headerDone_gives {stream : List UInt8} {o : HttpObfs} {idx room : ℕ} (hl : o.leftover = [] ∧ o.leftoverOff = 0)
    (hs : stream = o.responseScratch ++ o.recv.rest) (hf : FirstOccurs crlfCrlf o.responseScratch idx)
    (hr : 0 < room) (hrecv : RecvOk o.recv) {refused : Prop} (hi : idx + 4 ≤ maxHeader + headerRead ∨ refused) :
    Gives stream [] refused (o.headerDone room (o.responseScratch.drop (idx + 4))) := by
  have hlen : idx + 4 ≤ o.responseScratch.length := hf.1.le_length crlfCrlf_ne_nil
  have hfound : FirstOccurs crlfCrlf stream idx := hs ▸ hf.append crlfCrlf_ne_nil _
  have hbody : stream.drop (idx + 4) = o.responseScratch.drop (idx + 4) ++ o.recv.rest := by
    rw [hs, List.drop_append_of_le_length hlen]
  generalize o.responseScratch.drop (idx + 4) = body at hbody
  unfold headerDone
  by_cases hfit : min body.length room < body.length
  · have htake : min body.length room = room := by omega
    simp only [htake] at hfit ⊢
    rw [if_pos hfit, if_pos hr]
    refine ⟨.body idx ⟨rfl, hfound, ?_⟩ (hi.imp_right Or.inl), hrecv, fun hz => ?_, by simp⟩
    · simp [held, hl.1, hbody]
    · simp only [Poll.ready.injEq, Except.ok.injEq, List.take_eq_nil_iff] at hz
      rcases hz with hz | hz
      · omega
      · simp [hz] at hfit
  · have htake : min body.length room = body.length := by omega
    simp only [htake, lt_irrefl, if_false, List.take_length]
    split_ifs with hpos
    · refine ⟨.body idx ⟨rfl, hfound, ?_⟩ (hi.imp_right Or.inl), hrecv, fun hz => ?_, by simp⟩
      · simp [held, hl.1, hbody]
      · simp only [Poll.ready.injEq, Except.ok.injEq] at hz
        simp [hz] at hpos
    · have hnil : body = [] := List.length_eq_zero_iff.1 (by omega)
      have hb : InBody stream [] { o with firstResponse := false, responseScratch := [] } idx :=
        ⟨rfl, hfound, by simp [held, hl.1, hbody, hnil]⟩
      exact hb.passthrough (by simp [held, hl.1]) hr hrecv hi

/-- one round of the header loop: it stays in the header within the limit, or it leaves with what the poll gives -/
theorem headerRound_spec {stream : List UInt8} {o : HttpObfs} {room : ℕ} {refused : Prop} (hh : InHeader stream o)
    (hb : o.responseScratch.length ≤ maxHeader ∨ refused) (hr : 0 < room) (hrecv : RecvOk o.recv) :
    match headerRound room o with
    | .inl o' => InHeader stream o' ∧ (o'.responseScratch.length ≤ maxHeader ∨ refused) ∧ RecvOk o'.recv
    | .inr r => Gives stream [] refused r := by
  have hs := hh.read
  unfold headerRound
  rcases hp : o.recv.pollRead headerRead with ⟨_ | e | tmp, recv⟩
  · obtain ⟨hrest, -⟩ := Source.pollRead_pending hp
    refine ⟨.header ⟨hh.first, hh.leftover, by rw [hrest]; exact hs, hh.none⟩ rfl (hb.imp_right Or.inl),
      hrecv.read hp, by simp, by simp⟩
  · exact absurd hp (Source.pollRead_no_error hrecv.1)
  · obtain ⟨hrest, hle, -, hzero⟩ := Source.pollRead_ok hp
    dsimp only
    by_cases h0 : tmp.length = 0
    · rw [if_pos h0]
      have htmp : tmp = [] := List.length_eq_zero_iff.1 h0
      obtain ⟨-, hend⟩ := hzero (by decide) htmp
      refine ⟨.header ⟨hh.first, hh.leftover, by rw [hs, hrest, htmp]; rfl, hh.none⟩ rfl (hb.imp_right Or.inl),
        hrecv.read hp, fun _ => ⟨hend, ?_⟩, by simp⟩
      simp [held, hh.leftover.1]
    · rw [if_neg h0]
      have hs' : stream = (o.responseScratch ++ tmp) ++ recv.rest := by rw [hs, hrest, List.append_assoc]
      have hlen : o.responseScratch.length + tmp.length ≤ maxHeader + headerRead ∨ refused :=
        hb.imp_left fun h => by omega
      cases hf : findDoubleCrlf (o.responseScratch ++ tmp) with
      | some idx =>
        have hfo := findDoubleCrlf_eq_some.1 hf
        have := hfo.1.le_length crlfCrlf_ne_nil
        rw [List.length_append] at this
        exact headerDone_gives (o := { o with recv := recv, responseScratch := o.responseScratch ++ tmp }) hh.leftover
          hs' hfo hr (hrecv.read hp) (hlen.imp_left fun h => le_trans this h)
      | none =>
        have hh' : InHeader stream { o with recv := recv, responseScratch := o.responseScratch ++ tmp } :=
          ⟨hh.first, hh.leftover, hs', hf⟩
        dsimp only
        by_cases hmax : maxHeader < (o.responseScratch ++ tmp).length
        · rw [if_pos hmax]
          refine ⟨.header hh' rfl (Or.inr (Or.inr rfl)), hrecv.read hp, by simp, fun e he => ?_⟩
          simp only [Poll.ready.injEq, Except.error.injEq] at he
          exact ⟨he.symm, hh', hmax, by simpa using hlen⟩
        · rw [if_neg hmax]
          exact ⟨hh', Or.inl (not_lt.1 hmax), hrecv.read hp⟩

/-- **One poll.** Wherever the wrapper stands, a poll into a buffer with room keeps the account of the stream. -/
theorem pollRead_gives {stream out : List UInt8} {o : HttpObfs} {room : ℕ} {refused : Prop}
    (h : Stands stream out refused o) (hr : 0 < room) (hrecv : RecvOk o.recv) :
    Gives stream out refused (o.pollRead room) := by
  unfold pollRead
  cases h with
  | header hh ho hb =>
    subst ho
    rw [if_neg (by simp [hh.leftover.1]), if_pos hh.first]
    refine Loop.run_rule (headerRound_falls room)
      (I := fun v => InHeader stream v ∧ (v.responseScratch.length ≤ maxHeader ∨ refused) ∧ RecvOk v.recv)
      (Q := Gives stream [] refused) ?_ ?_ ⟨hh, hb, hrecv⟩
    · intro v v' ⟨h1, h2, h3⟩ hv
      have := headerRound_spec h1 h2 hr h3
      rwa [hv] at this
    · intro v r ⟨h1, h2, h3⟩ hv
      have := headerRound_spec h1 h2 hr h3
      rwa [hv] at this
  | body i hb hi =>
    by_cases hheld : o.leftoverOff < o.leftover.length
    · rw [if_pos hheld]
      refine ⟨.body i ⟨?_, hb.found, ?_⟩ (hi.imp_right Or.inl), ?_, fun hz => ?_, by simp⟩
      · rw [advance_firstResponse]; exact hb.first
      · rw [hb.body, advance_held, advance_recv, Poll.bytes_ok]
        show out ++ o.held ++ o.recv.rest =
          out ++ o.held.take (min o.held.length room) ++ o.held.drop (min o.held.length room) ++ o.recv.rest
        rw [List.append_assoc out (o.held.take _), List.take_append_drop]
      · rw [advance_recv]; exact hrecv
      · simp only [Poll.ready.injEq, Except.ok.injEq, List.take_eq_nil_iff, List.drop_eq_nil_iff,
          List.length_drop] at hz
        omega
    · rw [if_neg hheld, if_neg (by simp [hb.first])]
      exact hb.passthrough (List.drop_eq_nil_of_le (by omega)) hr hrecv hi

/-! ### Pending answers -/

theorem passthrough_prompt (o : HttpObfs) (room : ℕ) : Prompt recv o (o.passthrough room) :=
  ⟨⟨1, Source.pollRead_used o.recv room⟩, fun h => Source.pollRead_waits (Prod.ext h rfl)⟩

theorem headerDone_prompt (o : HttpObfs) (room : ℕ) (body : List UInt8) : Prompt recv o (o.headerDone room body) := by
  unfold headerDone
  have hthen : ∀ o' : HttpObfs, o'.recv = o.recv → Prompt recv o
      (if 0 < min body.length room then (.ready (.ok (body.take (min body.length room))), o') else o'.passthrough room) := by
    intro o' hrecv
    have hused : o.recv.Used o'.recv 0 := hrecv ▸ Source.used_zero _
    split_ifs
    · exact .ready hused
    · exact .after hused (passthrough_prompt o' room)
  by_cases htake : min body.length room < body.length
  · simp only [if_pos htake]
    exact hthen _ rfl
  · simp only [if_neg htake]
    exact hthen _ rfl

/-- a round of the header loop -/
theorem headerRound_prompt (room : ℕ) (o : HttpObfs) : PromptRound recv o (headerRound room o) := by
  unfold headerRound
  have hused := Source.pollRead_used o.recv headerRead
  rcases hp : o.recv.pollRead headerRead with ⟨_ | e | tmp, recv'⟩ <;> rw [hp] at hused
  · exact ⟨⟨1, hused⟩, fun _ => Source.pollRead_waits hp⟩
  · exact promptRound_ready hused
  · dsimp only
    by_cases h0 : tmp.length = 0
    · rw [if_pos h0]
      exact promptRound_ready hused
    · rw [if_neg h0]
      cases findDoubleCrlf (o.responseScratch ++ tmp) with
      | some idx =>
        exact .after (t := { o with recv := recv', responseScratch := o.responseScratch ++ tmp }) hused
          (headerDone_prompt _ _ _)
      | none =>
        dsimp only
        split_ifs
        · exact promptRound_ready hused
        · exact ⟨1, hused⟩

/-- **A poll waits only for the inner socket.** -/
theorem pollRead_prompt (o : HttpObfs) (room : ℕ) : Prompt recv o (o.pollRead room) := by
  unfold pollRead
  split_ifs
  · refine .ready (n := 0) ?_
    rw [advance_recv]
    exact Source.used_zero _
  · exact prompt_loop (headerRound_falls room) (headerRound_prompt room) o
  · exact passthrough_prompt o room

/-! ## Runs -/

/-- any run of polls over the stream, from a fresh wrapper -/
abbrev readRun (stream : List UInt8) (plan : ℕ → ReadAnswer IoError) (send : Sink UInt8 IoError) (host : List Char)
    (port : UInt16) (rooms : List ℕ) : ReadHist × HttpObfs :=
  Answering.run pollRead (new ⟨stream, false, plan⟩ send host port) rooms

/-- the history of a run ties the wrapper to the stream -/
structure ReadInv (stream : List UInt8) (hist : ReadHist) (o : HttpObfs) : Prop where
  stands : Stands stream (delivered hist) (Answers hist (.ready (.error headerTooLong))) o
  recv : RecvOk o.recv

theorem readInv_step {stream : List UInt8} {hist : ReadHist} {o : HttpObfs} {room : ℕ} (h : ReadInv stream hist o)
    (hr : 0 < room) : ReadInv stream (hist ++ [(room, (o.pollRead room).1)]) (o.pollRead room).2 := by
  have hg := pollRead_gives h.stands hr h.recv
  refine ⟨?_, hg.recv⟩
  rw [delivered_snoc]
  exact propext answers_snoc ▸ hg.stands

theorem readInv_run (stream : List UInt8) {plan : ℕ → ReadAnswer IoError} (hplan : ∀ n e, plan n ≠ .error e)
    (send : Sink UInt8 IoError) (host : List Char) (port : UInt16) {rooms : List ℕ} (hrooms : ∀ room ∈ rooms, 0 < room) :
    ReadInv stream (readRun stream plan send host port rooms).1 (readRun stream plan send host port rooms).2 := by
  refine Answering.run_inv_of_inputs (P := fun room => 0 < room) (I := ReadInv stream) ?_ ?_ hrooms
  · exact ⟨.header ⟨rfl, ⟨rfl, rfl⟩, rfl, rfl⟩ rfl (Or.inl (Nat.zero_le _)), hplan, by simp [new]⟩
  · exact fun hist o room h hr => readInv_step h hr

/-- what has been delivered is a prefix of the body, wherever the wrapper stands -/
theorem Stands.prefix_body {stream out : List UInt8} {refused : Prop} {o : HttpObfs} {i : ℕ}
    (h : Stands stream out refused o) (hi : FirstOccurs crlfCrlf stream i) : out <+: stream.drop (i + 4) := by
  cases h with
  | header _ ho _ => rw [ho]; exact List.nil_prefix
  | body j hb _ =>
    rw [hi.unique hb.found, hb.body, List.append_assoc]
    exact List.prefix_append _ _

/-- when the end of the stream is answered, the whole body has been delivered -/
theorem Gives.zero_body {stream out : List UInt8} {refused : Prop} {r : Poll (Except IoError (List UInt8)) × HttpObfs}
    {i : ℕ} (h : Gives stream out refused r) (hz : r.1 = .ready (.ok [])) (hi : FirstOccurs crlfCrlf stream i) :
    out = stream.drop (i + 4) := by
  obtain ⟨hend, hheld⟩ := h.zero hz
  have hrest := h.recv.2 hend
  have hs := h.stands
  rw [hz, Poll.bytes_ok, List.append_nil] at hs
  cases hs with
  | header hh _ _ =>
    have hread := hh.read
    rw [hrest, List.append_nil] at hread
    exact absurd hi.1 (hread ▸ findDoubleCrlf_eq_none.1 hh.none i)
  | body j hb _ => rw [hi.unique hb.found, hb.body, hheld, hrest, List.append_nil, List.append_nil]

/-- a header that ends within the limit is never refused -/
theorem Gives.no_error {stream out : List UInt8} {refused : Prop} {r : Poll (Except IoError (List UInt8)) × HttpObfs}
    {i : ℕ} (h : Gives stream out refused r) (hi : FirstOccurs crlfCrlf stream i) (hlim : i + 4 ≤ maxHeader)
    (e : IoError) : r.1 ≠ .ready (.error e) := by
  intro he
  obtain ⟨-, hh, hmax, -⟩ := h.error e he
  have hfo := FirstOccurs.of_append (hh.read ▸ hi) (by show i + 4 ≤ _; omega)
  exact findDoubleCrlf_eq_none.1 hh.none i hfo.1

/-- the account of a run over a stream whose header ends at `i`, within the limit -/
structure BodyInv (stream : List UInt8) (i : ℕ) (hist : ReadHist) (o : HttpObfs) : Prop where
  inv : ReadInv stream hist o
  complete : Answers hist (.ready (.ok [])) → delivered hist = stream.drop (i + 4)
  progress : Answers hist (.ready (.ok [])) ∨ (answered hist).length ≤ (delivered hist).length
  no_error : ∀ e, ¬ Answers hist (.ready (.error e))

theorem bodyInv_step {stream : List UInt8} {i : ℕ} (hi : FirstOccurs crlfCrlf stream i) (hlim : i + 4 ≤ maxHeader)
    {hist : ReadHist} {o : HttpObfs} {room : ℕ} (h : BodyInv stream i hist o) (hr : 0 < room) :
    BodyInv stream i (hist ++ [(room, (o.pollRead room).1)]) (o.pollRead room).2 := by
  have hg := pollRead_gives h.inv.stands hr h.inv.recv
  have hinv := readInv_step h.inv hr
  refine ⟨hinv, fun hz => ?_, ?_, fun e he => ?_⟩
  · rw [delivered_snoc]
    rcases answers_snoc.1 hz with hz | hz
    · -- the body was complete, so nothing more can come
      have hp := hinv.stands.prefix_body hi
      rw [delivered_snoc, h.complete hz] at hp
      have hnil : (o.pollRead room).1.bytes = [] := by
        have := hp.length_le
        rw [List.length_append] at this
        exact List.length_eq_zero_iff.1 (by omega)
      rw [hnil, List.append_nil, h.complete hz]
    · rw [hz, Poll.bytes_ok, List.append_nil]
      exact hg.zero_body hz hi
  · exact progress_snoc h.progress (hg.no_error hi hlim)
  · rcases answers_snoc.1 he with he | he
    · exact h.no_error e he
    · exact hg.no_error hi hlim e he

/-- how much of the stream has been read -/
def bytesRead (stream : List UInt8) (o : HttpObfs) : ℕ := stream.length - o.recv.rest.length

theorem InHeader.bytesRead_eq {stream : List UInt8} {o : HttpObfs} (h : InHeader stream o) :
    bytesRead stream o = o.responseScratch.length := by
  unfold bytesRead
  rw [h.read, List.length_append]
  omega

/-- **The download direction of HTTP simple-obfs.** For every stream, every way it is cut into reads with pending
answers in between, and every sequence of caller buffers with room:
- when the header ends within the first 16384 bytes, the bytes delivered are a prefix of the body, and once the end of
the stream has been answered, or more polls have been answered than the body has bytes, they are the whole body; when at
most `p` answers of the inner socket are pending, they are the whole body after more polls than that and the bytes of the
body; as soon as the header is over, delivered, held and unread bytes are together the body; and no poll fails;
- a poll is pending only when the last read of the inner socket in it was;
- a poll answers with zero bytes only after the inner stream has ended;
- when the stream has no terminator in its first 16384 + 1024 bytes, nothing is delivered before a poll refuses the
header, and that happens by the time that many bytes have been read. -/
theorem read_exact (stream : List UInt8) (plan : ℕ → ReadAnswer IoError) (hplan : ∀ n e, plan n ≠ .error e)
    (send : Sink UInt8 IoError) (host : List Char) (port : UInt16) (rooms : List ℕ) (hrooms : ∀ room ∈ rooms, 0 < room) :
    let r := readRun stream plan send host port rooms
    (∀ i, FirstOccurs crlfCrlf stream i → i + 4 ≤ 16384 →
      delivered r.1 <+: stream.drop (i + 4) ∧
      (r.2.firstResponse = false → delivered r.1 ++ r.2.held ++ r.2.recv.rest = stream.drop (i + 4)) ∧
      (Answers r.1 (.ready (.ok [])) ∨ (stream.drop (i + 4)).length < (answered r.1).length →
        delivered r.1 = stream.drop (i + 4)) ∧
      (∀ p, (∀ n, pauses plan n ≤ p) → (stream.drop (i + 4)).length + p < rooms.length →
        delivered r.1 = stream.drop (i + 4)) ∧
      ∀ e, ¬ Answers r.1 (.ready (.error e))) ∧
    (∀ room, (r.2.pollRead room).1 = .pending → r.2.recv.Waits (r.2.pollRead room).2.recv) ∧
    (∀ room, 0 < room → (r.2.pollRead room).1 = .ready (.ok []) → (r.2.pollRead room).2.recv.ended = true) ∧
    ((∀ i, OccursAt crlfCrlf stream i → 16384 + 1024 < i + 4) → ¬ Answers r.1 (.ready (.error headerTooLong)) →
      delivered r.1 = [] ∧ ∀ room, 0 < room →
        bytesRead stream (r.2.pollRead room).2 ≤ 16384 + 1024 ∧
        (bytesRead stream (r.2.pollRead room).2 = 16384 + 1024 →
          (r.2.pollRead room).1 = .ready (.error headerTooLong)) ∧
        (r.2.pollRead room).1.bytes = []) := by
  intro r
  have hinv : ReadInv stream r.1 r.2 := readInv_run stream hplan send host port hrooms
  refine ⟨fun i hi hlim => ?_, fun room => (pollRead_prompt r.2 room).waits, fun room hr hz => ?_, fun hno hacc => ?_⟩
  · have hb : BodyInv stream i r.1 r.2 := by
      refine Answering.run_inv_of_inputs (P := fun room => 0 < room) (I := BodyInv stream i) ?_ ?_ hrooms
      · refine ⟨@readInv_run stream plan hplan send host port [] (by simp), ?_, Or.inr le_rfl, ?_⟩ <;>
          simp [Answers]
      · exact fun hist o room h hr => bodyInv_step hi hlim h hr
    have hwhole : Answers r.1 (.ready (.ok [])) ∨ (stream.drop (i + 4)).length < (answered r.1).length →
        delivered r.1 = stream.drop (i + 4) := by
      rintro (hz | hlen)
      · exact hb.complete hz
      · rcases hb.progress with hz | hp
        · exact hb.complete hz
        · have := (hinv.stands.prefix_body hi).length_le
          omega
    refine ⟨hinv.stands.prefix_body hi, fun hf => ?_, hwhole, fun p hp hlen => ?_, hb.no_error⟩
    · cases hinv.stands with
      | header hh _ _ => rw [hh.first] at hf; cases hf
      | body j hj _ => rw [hi.unique hj.found, hj.body]
    · have hanswered : rooms.length ≤ (answered r.1).length + p := answered_run pollRead_prompt _ rooms hp
      exact hwhole (Or.inr (by omega))
  · exact ((pollRead_gives hinv.stands hr hinv.recv).zero hz).1
  · have hbody : ∀ {out o j}, InBody stream out o j → ¬ j + 4 ≤ maxHeader + headerRead := fun {out o j} hj hle => by
      have := hno j hj.found.1
      simp only [maxHeader, headerRead] at hle
      omega
    cases hinv.stands with
    | body j hj hle => exact (hle.elim (hbody hj) hacc).elim
    | header hh ho hle =>
      refine ⟨ho, fun room hr => ?_⟩
      have hg := pollRead_gives hinv.stands hr hinv.recv
      cases hg.stands with
      | body j hj hle' =>
        rcases hle' with hle' | hle' | hle'
        · exact absurd hle' (hbody hj)
        · exact absurd hle' hacc
        · exact absurd hj.first (by rw [(hg.error _ hle').2.1.first]; decide)
      | header hh' ho' hle' =>
        have hbytes : (r.2.pollRead room).1.bytes = [] := by simpa [ho] using ho'
        rw [hh'.bytesRead_eq]
        rcases hle' with hle' | hle' | hle'
        · simp only [maxHeader] at hle'
          exact ⟨by omega, fun h => by omega, hbytes⟩
        · exact absurd hle' hacc
        · obtain ⟨-, -, -, hmax⟩ := hg.error _ hle'
          have := hmax.resolve_right hacc
          exact ⟨this, fun _ => hle', hbytes⟩

/-- a header `X` that arrives in two reads, cut inside its terminator and with pending answers in between; the body
`HITHERE` begins in the second read, and the rest of it comes through the passthrough -/
theorem read_exact_split :
    let r := readRun [88, 13, 10, 13, 10, 72, 73, 84, 72, 69, 82, 69] (fun n => if n % 2 = 0 then .pending else .data 3)
      ⟨[], fun _ => .pending⟩ "h".toList 80 (List.replicate 16 1)
    delivered r.1 = [72, 73, 84, 72, 69, 82, 69] ∧
      ((r.2.pollRead 1).1 = .pending → r.2.recv.Waits (r.2.pollRead 1).2.recv) := by
  have h := read_exact [88, 13, 10, 13, 10, 72, 73, 84, 72, 69, 82, 69] (fun n => if n % 2 = 0 then .pending else .data 3)
    (fun n e => by split_ifs <;> simp) ⟨[], fun _ => .pending⟩ "h".toList 80 (List.replicate 16 1) (by decide)
  exact ⟨(h.1 1 (by decide) (by decide)).2.2.1 (Or.inr (by decide +kernel)), h.2.1 1⟩

end HttpObfs

end ShadowsocksOhos
