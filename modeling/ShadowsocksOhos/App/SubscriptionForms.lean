/-
A subscription in base64 and the same subscription as plain text (`parseSubscriptionBody`). The plain text is trimmed
before it is looked at, the decoded one is looked at trimmed and then parsed as it is. For a list of URLs this makes no
difference, since every line is trimmed again; for a document it does, because `JSON.parse` skips less than `trim`.

- `entries_jsTrim`: white space around a list does not change its entries.
- `bodyText_base64`: the decoders give the text back, whatever line breaks have been put into the base64 text.
- `forms_iff`: when the two forms agree.
- `marked`: a document after a byte order mark.
-/
import ShadowsocksOhos.App.SubscriptionBody

namespace ShadowsocksOhos

namespace SubscriptionBody

open JsonParse (isJsonSpace)

/-! ## White space around a list -/

/-- the lines that are not blank, trimmed -/
def entries (text : JsString) : List JsString := ((splitNewlines text).map jsTrim).filter (· ≠ [])

/-- an entry, when it is not empty -/
def keep (entry : JsString) : List JsString := if entry = [] then [] else [entry]

/-- the entries of `pre ++ text`, when there is no end of line in `pre` -/
def entriesFrom (pre : JsString) : JsString → List JsString
  | [] => keep (jsTrim pre)
  | u :: text => if u = unit '\n' then keep (jsTrim pre) ++ entriesFrom [] text else entriesFrom (pre ++ [u]) text

theorem filter_cons_keep (entry : JsString) (l : List JsString) :
    (entry :: l).filter (· ≠ []) = keep entry ++ l.filter (· ≠ []) := by
  unfold keep
  by_cases h : entry = []
  · simp [h]
  · simp [h]

theorem jsTrim_snoc {u : UInt16} (h : isJsSpace u = true) (s : JsString) : jsTrim (s ++ [u]) = jsTrim s :=
  jsTrim_append_space (fun v hv => by rw [List.mem_singleton.1 hv]; exact h) s

theorem splitNewlines_ne (text : JsString) : splitNewlines text ≠ [] := by
  induction text with
  | nil => exact List.cons_ne_nil _ _
  | cons u text ih =>
    unfold splitNewlines
    split_ifs
    · exact List.cons_ne_nil _ _
    · exact ih
    · split <;> exact List.cons_ne_nil _ _

/-- the carriage return that an end of line may have is trimmed with the rest -/
theorem entriesFrom_eq (pre text : JsString) : entriesFrom pre text =
    (((splitNewlines text).modifyHead (pre ++ ·)).map jsTrim).filter (· ≠ []) := by
  induction text generalizing pre with
  | nil =>
    unfold entriesFrom splitNewlines
    rw [List.modifyHead_cons, List.append_nil, List.map_cons, List.map_nil, filter_cons_keep]
    exact (List.append_nil _).symm
  | cons u text ih =>
    unfold entriesFrom splitNewlines
    by_cases hlf : u = unit '\n'
    · rw [if_pos hlf, if_pos hlf, List.modifyHead_cons, List.append_nil, List.map_cons, filter_cons_keep, ih]
      cases splitNewlines text <;> rfl
    rw [if_neg hlf, if_neg hlf]
    by_cases hcr : u = unit '\r' ∧ text.head? = some (unit '\n')
    · obtain ⟨rfl, hhead⟩ := hcr
      obtain ⟨rest, rfl⟩ : ∃ rest, text = unit '\n' :: rest := by
        cases text with
        | nil => cases hhead
        | cons v rest => exact ⟨rest, by rw [Option.some.inj hhead]⟩
      rw [if_pos ⟨rfl, hhead⟩, ih]
      unfold splitNewlines
      rw [if_pos rfl, List.modifyHead_cons, List.modifyHead_cons, List.map_cons, List.map_cons, List.append_nil,
        List.append_nil, jsTrim_snoc (by decide)]
    · rw [if_neg hcr, ih]
      cases hl : splitNewlines text with
      | nil => exact absurd hl (splitNewlines_ne text)
      | cons line lines => simp

theorem entries_eq (text : JsString) : entries text = entriesFrom [] text := by
  rw [entriesFrom_eq]
  unfold entries
  cases splitNewlines text <;> rfl

theorem entriesFrom_space {a : JsString} (ha : ∀ u ∈ a, isJsSpace u = true) (pre text : JsString) :
    entriesFrom (a ++ pre) text = entriesFrom pre text := by
  induction text generalizing pre with
  | nil =>
    unfold entriesFrom
    rw [jsTrim_space_append ha]
  | cons u text ih =>
    unfold entriesFrom
    rw [jsTrim_space_append ha, List.append_assoc, ih]

/-- white space in front -/
theorem entries_space_append {a : JsString} (ha : ∀ u ∈ a, isJsSpace u = true) (text : JsString) :
    entriesFrom [] (a ++ text) = entriesFrom [] text := by
  induction a with
  | nil => rfl
  | cons u a ih =>
    have ih' := ih fun v hv => ha v (List.mem_cons_of_mem _ hv)
    rw [List.cons_append]
    conv_lhs => unfold entriesFrom
    split_ifs
    · exact ih'
    · have hu := entriesFrom_space (a := [u]) (fun v hv => by rw [List.mem_singleton.1 hv]; exact ha u List.mem_cons_self) []
        (a ++ text)
      rw [List.append_nil] at hu
      rw [List.nil_append, hu, ih']

/-- white space at the end -/
theorem entries_append_space {b : JsString} (hb : ∀ u ∈ b, isJsSpace u = true) (pre text : JsString) :
    entriesFrom pre (text ++ b) = entriesFrom pre text := by
  induction text generalizing pre with
  | cons u text ih =>
    rw [List.cons_append]
    unfold entriesFrom
    rw [ih, ih]
  | nil =>
    rw [List.nil_append]
    induction b generalizing pre with
    | nil => rfl
    | cons u b ih =>
      have ih' := ih fun v hv => hb v (List.mem_cons_of_mem _ hv)
      have hkeep : keep (jsTrim []) = [] := rfl
      conv_lhs => unfold entriesFrom
      rw [ih', ih']
      unfold entriesFrom
      rw [jsTrim_snoc (hb u List.mem_cons_self), hkeep, List.append_nil, ite_self]

/-- **White space around a list does not change its entries.** -/
theorem entries_jsTrim (text : JsString) : entries (jsTrim text) = entries text := by
  obtain ⟨a, b, htext, ha, hb⟩ := jsTrim_split text
  rw [entries_eq, entries_eq]
  conv_rhs => rw [htext, entries_append_space hb, entries_space_append ha]

/-- a list is its entries -/
theorem listed_eq (text : JsString) :
    listed text = (entries text).filterMap fun entry => (parseUrl entry).map Profile.toJs := by
  unfold listed entries
  induction splitNewlines text with
  | nil => rfl
  | cons line lines ih =>
    rw [List.map_cons]
    by_cases hblank : jsTrim line = []
    · rw [List.filter_cons_of_neg (by simp [hblank]), List.filterMap_cons_none (by rw [parseUrl_blank hblank]; rfl), ih]
    · rw [List.filter_cons_of_pos (by simp [hblank]), List.filterMap_cons, List.filterMap_cons, parseUrl_jsTrim, ih]

theorem listed_jsTrim (text : JsString) : listed (jsTrim text) = listed text := by
  rw [listed_eq, listed_eq, entries_jsTrim]

/-! ## The base64 form -/

def isBreak (u : UInt16) : Bool := u = unit '\r' || u = unit '\n'

/-- the base64 text of the UTF-8 bytes of `t`, with line breaks put in anywhere -/
def Wrapped (f : Base64Form) (t : List Char) (body : JsString) : Prop :=
  body.filter (fun u => !isBreak u) = f.encode (utf8 t)

theorem break_space {u : UInt16} (h : isBreak u = true) : isJsSpace u = true ∧ skipped u = true := by
  simp only [isBreak, Bool.or_eq_true, decide_eq_true_eq] at h
  rcases h with rfl | rfl <;> decide

/-- a unit of a base64 text is neither white space nor one of the units that the formats are told apart by -/
theorem base64_unit {f : Base64Form} {bytes : List UInt8} {u : UInt16} (h : u ∈ f.encode bytes) :
    isJsSpace u = false ∧ skipped u = false ∧ u ≠ unit '\x7b' ∧ u ≠ unit ':' := by
  have hdigit : ∀ b : Bool, ∀ v < 64, let u := unit (if b then Base64.urlSafe v else Base64.standard v)
      isJsSpace u = false ∧ skipped u = false ∧ u ≠ unit '\x7b' ∧ u ≠ unit ':' := by decide +kernel
  rcases Base64.mem_encode h with ⟨v, hv, rfl⟩ | hpad
  · exact hdigit f.urlSafe v hv
  · split_ifs at hpad
    cases hpad
    decide

section Wrapped

variable {f : Base64Form} {t : List Char} {body : JsString}

theorem wrapped_unit (hb : Wrapped f t body) {u : UInt16} (hu : u ∈ body) :
    isBreak u = true ∨ u ∈ f.encode (utf8 t) := by
  cases hbreak : isBreak u with
  | true => exact Or.inl rfl
  | false =>
    refine Or.inr ?_
    rw [← hb]
    exact List.mem_filter.2 ⟨hu, by simp [hbreak]⟩

/-- trimming takes line breaks away -/
theorem wrapped_jsTrim (hb : Wrapped f t body) : Wrapped f t (jsTrim body) := by
  obtain ⟨a, b, hbody, ha, hb'⟩ := jsTrim_split body
  have hnil : ∀ l : JsString, (∀ u ∈ l, u ∈ body ∧ isJsSpace u = true) → l.filter (fun u => !isBreak u) = [] := by
    intro l hl
    refine List.filter_eq_nil_iff.2 fun u hu => ?_
    obtain ⟨hm, hspace⟩ := hl u hu
    rcases wrapped_unit hb hm with hbreak | henc
    · simp [hbreak]
    · rw [(base64_unit henc).1] at hspace
      cases hspace
  have hab := hb
  unfold Wrapped at hab ⊢
  rw [hbody, List.filter_append, List.filter_append, hnil a, hnil b, List.append_nil, List.nil_append] at hab
  · exact hab
  · exact fun u hu => ⟨by rw [hbody]; exact List.mem_append_right _ hu, hb' u hu⟩
  · exact fun u hu => ⟨by rw [hbody]; exact List.mem_append_left _ (List.mem_append_left _ hu), ha u hu⟩

/-- **The decoders give the text back**, and the body does not look like either format. -/
theorem bodyText_base64 (hb : Wrapped f t body) : bodyText body = some (utf16 t) := by
  have htrim := wrapped_jsTrim hb
  have hnot : ∀ {c : Char}, isBreak (unit c) = false → (∀ u ∈ f.encode (utf8 t), u ≠ unit c) → unit c ∉ jsTrim body := by
    intro c hbreak hne hm
    rcases wrapped_unit htrim hm with h | h
    · rw [hbreak] at h
      cases h
    · exact hne _ h rfl
  have hbrace : ¬ js "\x7b" <+: jsTrim body := fun h =>
    hnot (c := '\x7b') (by decide) (fun u hu => (base64_unit hu).2.2.1) (h.subset (by decide))
  have hss : ¬ js "ss://" <:+: jsTrim body := fun h =>
    hnot (c := ':') (by decide) (fun u hu => (base64_unit hu).2.2.2) (h.subset (by decide))
  have hskip : (jsTrim body).filter (fun u => !skipped u) = f.encode (utf8 t) := by
    rw [← htrim]
    refine List.filter_congr fun u hu => ?_
    rcases wrapped_unit htrim hu with h | h
    · rw [h, (break_space h).2]
    · have hbreak : isBreak u = false := by
        by_contra hc
        have := (break_space (by simpa using hc)).1
        rw [(base64_unit h).1] at this
        cases this
      rw [hbreak, (base64_unit h).2.1]
  unfold bodyText
  simp only [hbrace, hss, or_self, if_false]
  rw [← decodeBase64_filter, hskip, decodeBase64_encode]

end Wrapped

/-! ## When the forms agree -/

/-- the text shows its format: it has a URL in it, or it looks like a document -/
def ShowsFormat (text : JsString) : Prop := js "ss://" <:+: text ∨ js "\x7b" <+: jsTrim text

/-- what `trim` takes off -/
def outer (text : JsString) : JsString := text.takeWhile isJsSpace ++ (text.dropWhile isJsSpace).rtakeWhile isJsSpace

/-- a document from which no profile is made, and which does not make the loop throw -/
def noServer (doc : JsValue) : Bool :=
  match doc.prop (js "servers") with
  | some none | some (some .null) | some (some (.str _)) => true
  | some (some (.arr items)) => items.all fun server => serverOk server && (describedServer server).isNone
  | _ => false

theorem bodyText_plain {text : JsString} (h : ShowsFormat text) : bodyText text = some (jsTrim text) := by
  unfold bodyText
  refine if_pos ?_
  rcases h with h | h
  · exact Or.inr (infix_jsTrim (by decide) (forall_mem_of_all (by decide)) h)
  · exact Or.inl h

/-- `JSON.parse` skips less than `trim` -/
theorem jsonParse_outer (text : JsString) :
    jsonParse text = if (outer text).all isJsonSpace then jsonParse (jsTrim text) else none := by
  have hb : ∀ u ∈ text.takeWhile isJsSpace, isJsSpace u = true := fun _ hu => List.mem_takeWhile_imp hu
  have ha : ∀ u ∈ (text.dropWhile isJsSpace).rtakeWhile isJsSpace, isJsSpace u = true := fun _ hu =>
    List.mem_rtakeWhile_imp hu
  have h := JsonParse.jsonParse_around hb ha (jsTrim text)
  rw [← jsTrim_parts] at h
  unfold outer
  simp only [h, List.all_append, Bool.and_eq_true]

/-- the same lists up to the ids, or an error both times -/
def SameProfiles (r r' : Option (List JsProfile)) : Prop :=
  r.map (List.map JsProfile.unnumbered) = r'.map (List.map JsProfile.unnumbered)

/-- what a text gives -/
def textProfiles (text : JsString) : Option (List JsProfile) :=
  if js "\x7b" <+: jsTrim text then
    if (jsonParse text).all documentOk then some (((jsonParse text).map described).getD []) else none
  else some (listed text)

theorem parse_text (newId : ℕ → JsString) (subscriptionId : JsString) {body text : JsString} (h : bodyText body = some text) :
    (parseSubscriptionBody newId subscriptionId body).map (List.map JsProfile.unnumbered) =
      (textProfiles text).map (List.map fun p => { p with subscriptionId := .str subscriptionId }) := by
  have hanon := anonymous_subscribed body
  rw [parseSubscriptionBody_eq]
  unfold documentOf textProfiles subscribed at *
  simp only [h, Option.bind_some] at hanon ⊢
  by_cases hbrace : js "\x7b" <+: jsTrim text
  · simp only [if_pos hbrace] at hanon ⊢
    split_ifs
    · exact congrArg some (ownAll_map newId subscriptionId 0 hanon)
    · rfl
  · simp only [if_neg hbrace] at hanon ⊢
    exact congrArg some (ownAll_map newId subscriptionId 0 hanon)

theorem noServer_iff (doc : JsValue) : noServer doc = true ↔ documentOk doc = true ∧ described doc = [] := by
  unfold noServer documentOk described
  rcases doc.prop (js "servers") with _ | _ | v
  · simp
  · simp
  cases v <;> simp [List.filterMap_eq_nil_iff, forall_and]

/-- a list of URLs is the same trimmed -/
theorem textProfiles_list {text : JsString} (h : ¬ js "\x7b" <+: jsTrim text) :
    textProfiles (jsTrim text) = textProfiles text := by
  unfold textProfiles
  rw [jsTrim_jsTrim, if_neg h, if_neg h, listed_jsTrim]

/-- a document is the same trimmed, or nothing is read of it untrimmed -/
theorem textProfiles_document {text : JsString} (h : js "\x7b" <+: jsTrim text) :
    textProfiles text = if (outer text).all isJsonSpace then textProfiles (jsTrim text) else some [] := by
  unfold textProfiles
  rw [jsTrim_jsTrim, if_pos h, jsonParse_outer, if_pos h]
  by_cases houter : (outer text).all isJsonSpace = true
  · simp only [if_pos houter]
  · simp only [if_neg houter]
    rfl

theorem textProfiles_nil {text : JsString} (h : js "\x7b" <+: jsTrim text) :
    textProfiles text = some [] ↔ ∀ doc, jsonParse text = some doc → noServer doc = true := by
  unfold textProfiles
  rw [if_pos h]
  cases jsonParse text with
  | none => simp
  | some doc => simp [noServer_iff]

/-- **The two forms agree exactly** when the text is a list, or only white space of JSON stands around the document, or the
document has no server. -/
theorem forms_iff (draws draws' : ℕ → ℕ → Fin 16) (subscriptionId : JsString) (f : Base64Form) (t : List Char)
    (body : JsString) (ht : ShowsFormat (utf16 t)) (hb : Wrapped f t body) :
    SameProfiles (parseSubscriptionBody (fun n => newProfileId (draws n)) subscriptionId body)
        (parseSubscriptionBody (fun n => newProfileId (draws' n)) subscriptionId (utf16 t)) ↔
      (js "\x7b" <+: jsTrim (utf16 t) → (outer (utf16 t)).all isJsonSpace = true ∨
        ∀ doc, jsonParse (jsTrim (utf16 t)) = some doc → noServer doc = true) := by
  unfold SameProfiles
  rw [parse_text _ _ (bodyText_base64 hb), parse_text _ _ (bodyText_plain ht)]
  by_cases hbrace : js "\x7b" <+: jsTrim (utf16 t)
  · have hbrace' : js "\x7b" <+: jsTrim (jsTrim (utf16 t)) := by rwa [jsTrim_jsTrim]
    rw [← textProfiles_nil hbrace', textProfiles_document hbrace]
    by_cases houter : (outer (utf16 t)).all isJsonSpace = true
    · simp only [if_pos houter]
      exact iff_of_true trivial fun _ => Or.inl houter
    · simp only [if_neg houter]
      constructor
      · intro h _
        refine Or.inr ?_
        cases hp : textProfiles (jsTrim (utf16 t)) with
        | none => rw [hp] at h; cases h
        | some ps =>
          rw [hp] at h
          have hnil := Option.some.inj h
          rw [List.map_nil, eq_comm, List.map_eq_nil_iff] at hnil
          rw [hnil]
      · intro h
        rcases h hbrace with hc | hnil
        · exact absurd hc houter
        · rw [hnil]
  · rw [textProfiles_list hbrace]
    exact iff_of_true rfl fun hc => absurd hc hbrace

/-- a URL after a blank line, in base64 with a line break in it; a profile is made of it -/
theorem forms_iff_url :
    SameProfiles
      (parseSubscriptionBody (fun _ => newProfileId fun _ => 0) [] (js "CnNz\r\nOi8vWVRwaUBjOjEjbg"))
      (parseSubscriptionBody (fun _ => newProfileId fun _ => 1) [] (utf16 "\nss://YTpi@c:1#n".toList)) ∧
    (parseSubscriptionBody (fun _ => newProfileId fun _ => 1) [] (utf16 "\nss://YTpi@c:1#n".toList)).map List.length =
      some 1 :=
  ⟨(forms_iff _ _ [] ⟨false, false⟩ "\nss://YTpi@c:1#n".toList _ (Or.inl (by decide)) (by unfold Wrapped; decide)).2
    fun h => absurd h (by decide), by decide +kernel⟩

/-- a document after a byte order mark -/
def markedText : List Char :=
  "\ufeff\x7b\"servers\":[\x7b\"server\":\"a\",\"server_port\":1,\"password\":\"b\",\"method\":\"c\"\x7d]\x7d".toList

/-- **A byte order mark**: the plain text gives a profile, its base64 form none. -/
theorem marked : ¬ ∀ (draws draws' : ℕ → ℕ → Fin 16) (subscriptionId : JsString) (f : Base64Form) (t : List Char)
    (body : JsString), ShowsFormat (utf16 t) → Wrapped f t body →
    SameProfiles (parseSubscriptionBody (fun n => newProfileId (draws n)) subscriptionId body)
      (parseSubscriptionBody (fun n => newProfileId (draws' n)) subscriptionId (utf16 t)) := by
  intro h
  have hsame := h (fun _ _ => 0) (fun _ _ => 0) [] ⟨false, true⟩ markedText (Base64Form.encode ⟨false, true⟩ (utf8 markedText))
    (Or.inr (by decide +kernel)) (by unfold Wrapped; decide +kernel)
  have hlength := congrArg (Option.map List.length) hsame
  revert hlength
  simp only [Option.map_map, Function.comp_def, List.length_map]
  decide +kernel

end SubscriptionBody

end ShadowsocksOhos
