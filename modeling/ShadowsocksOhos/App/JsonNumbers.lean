/-
The numbers of documents: every number that `JSON.parse` makes has been rounded.

- `jsonParse_rounded`: the numbers of a document are doubles, or infinite.
-/
import ShadowsocksOhos.App.JsonParse

namespace ShadowsocksOhos

namespace JsonParse

/-! ## Rounded values -/

mutual

/-- the numbers are doubles, or infinite -/
def Rounded : JsValue → Prop
  | .num (.finite q) => Binary64.IsDouble q
  | .arr items => RoundedItems items
  | .obj fields => RoundedFields fields
  | _ => True

def RoundedItems : List JsValue → Prop
  | [] => True
  | v :: vs => Rounded v ∧ RoundedItems vs

def RoundedFields : List (JsString × JsValue) → Prop
  | [] => True
  | (_, v) :: fields => Rounded v ∧ RoundedFields fields

end

theorem RoundedItems.append {items : List JsValue} (h : RoundedItems items) {v : JsValue} (hv : Rounded v) :
    RoundedItems (items ++ [v]) := by
  induction items with
  | nil => exact ⟨hv, trivial⟩
  | cons w items ih => exact ⟨h.1, ih h.2⟩

theorem RoundedItems.mem {items : List JsValue} (h : RoundedItems items) {v : JsValue} (hv : v ∈ items) : Rounded v := by
  induction items with
  | nil => cases hv
  | cons w items ih =>
    rcases List.mem_cons.1 hv with rfl | hv
    · exact h.1
    · exact ih h.2 hv

theorem RoundedFields.insert {fields : List (JsString × JsValue)} (h : RoundedFields fields) (key : JsString) {v : JsValue}
    (hv : Rounded v) : RoundedFields (Dict.insert key v fields) := by
  induction fields with
  | nil => exact ⟨hv, trivial⟩
  | cons field fields ih =>
    unfold Dict.insert
    split_ifs
    · exact ⟨hv, h.2⟩
    · exact ⟨h.1, ih h.2⟩

theorem RoundedFields.get {fields : List (JsString × JsValue)} (h : RoundedFields fields) {key : JsString} {v : JsValue}
    (hv : Dict.get key fields = some v) : Rounded v := by
  induction fields with
  | nil => cases hv
  | cons field fields ih =>
    unfold Dict.get at hv
    split_ifs at hv
    · cases hv
      exact h.1
    · exact ih h.2 hv

theorem rounded_toJsNumber (negative : Bool) (q : ℚ) : Rounded (.num (toJsNumber negative q)) := by
  unfold toJsNumber
  cases hx : Binary64.nearest (if negative then -q else q) with
  | none => trivial
  | some x => exact Binary64.isDouble_nearest hx

theorem rounded_jsonNumber {units : JsString} {n : JsNumber} (h : jsonNumber units = some n) : Rounded (.num n) := by
  unfold jsonNumber at h
  obtain ⟨d, -, hd⟩ := Option.bind_eq_some_iff.1 h
  split_ifs at hd
  cases hd
  exact rounded_toJsNumber _ _

/-! ## The machine -/

def Frame.Rounded : Frame → Prop
  | .arr items => RoundedItems items
  | .obj fields _ => RoundedFields fields

def Scan.Rounded : Scan → Prop
  | .after v => JsonParse.Rounded v
  | _ => True

/-- what has been read so far is rounded -/
structure State.Rounded (s : State) : Prop where
  stack : ∀ frame ∈ s.stack, frame.Rounded
  scan : s.scan.Rounded

theorem rounded_push {stack : List Frame} (h : ∀ frame ∈ stack, frame.Rounded) (frame : Frame) (hframe : frame.Rounded)
    {scan : Scan} (hscan : scan.Rounded) : State.Rounded ⟨frame :: stack, scan⟩ :=
  ⟨List.forall_mem_cons.2 ⟨hframe, h⟩, hscan⟩

theorem beginValue_rounded {stack : List Frame} (h : ∀ frame ∈ stack, frame.Rounded) {u : UInt16} {s : State}
    (hs : beginValue stack u = some s) : s.Rounded := by
  have hobj : (Frame.obj [] []).Rounded := trivial
  have harr : (Frame.arr []).Rounded := trivial
  unfold beginValue at hs
  split_ifs at hs <;> cases hs
  · exact ⟨h, trivial⟩
  · exact rounded_push h _ hobj trivial
  · exact rounded_push h _ harr trivial
  all_goals exact ⟨h, trivial⟩

theorem afterValue_rounded {stack : List Frame} (h : ∀ frame ∈ stack, frame.Rounded) {v : JsValue} (hv : Rounded v)
    {u : UInt16} {s : State} (hs : afterValue stack v u = some s) : s.Rounded := by
  rcases stack with _ | ⟨items | ⟨fields, key⟩, stack⟩ <;> simp only [afterValue] at hs
  · split_ifs at hs
    cases hs
    exact ⟨h, hv⟩
  · obtain ⟨hitems, hstack⟩ := List.forall_mem_cons.1 h
    have hall : (Frame.arr (items ++ [v])).Rounded := RoundedItems.append hitems hv
    split_ifs at hs <;> cases hs
    · exact ⟨h, hv⟩
    · exact rounded_push hstack _ hall trivial
    · exact ⟨hstack, hall⟩
  · obtain ⟨hfields, hstack⟩ := List.forall_mem_cons.1 h
    have hall : RoundedFields (Dict.insert key v fields) := RoundedFields.insert hfields key hv
    split_ifs at hs <;> cases hs
    · exact ⟨h, hv⟩
    · exact rounded_push hstack (.obj _ []) hall trivial
    · exact ⟨hstack, hall⟩

theorem endString_rounded {stack : List Frame} (h : ∀ frame ∈ stack, frame.Rounded) {isKey : Bool} {units : JsString}
    {s : State} (hs : endString stack isKey units = some s) : s.Rounded := by
  unfold endString at hs
  split_ifs at hs
  · split at hs
    · obtain ⟨hfields, hstack⟩ := List.forall_mem_cons.1 h
      cases hs
      exact rounded_push hstack (.obj _ units) hfields trivial
    · cases hs
  · cases hs
    exact ⟨h, trivial⟩

theorem step_rounded {s s' : State} {u : UInt16} (h : s.Rounded) (hs : step s u = some s') : s'.Rounded := by
  obtain ⟨stack, scan⟩ := s
  have hstack := h.stack
  have hstay : ∀ {scan' : Scan}, some (⟨stack, scan'⟩ : State) = some s' → scan'.Rounded → s'.Rounded := by
    intro scan' hsome hscan
    cases hsome
    exact ⟨hstack, hscan⟩
  cases scan with
  | value =>
    simp only [step] at hs
    split_ifs at hs
    · exact hstay hs trivial
    · exact beginValue_rounded hstack hs
  | firstItem =>
    simp only [step] at hs
    split_ifs at hs
    · exact hstay hs trivial
    · split at hs
      · obtain ⟨hitems, hrest⟩ := List.forall_mem_cons.1 hstack
        cases hs
        exact ⟨hrest, hitems⟩
      · cases hs
    · exact beginValue_rounded hstack hs
  | firstKey =>
    simp only [step] at hs
    split_ifs at hs
    · exact hstay hs trivial
    · split at hs
      · obtain ⟨hfields, hrest⟩ := List.forall_mem_cons.1 hstack
        cases hs
        exact ⟨hrest, hfields⟩
      · cases hs
    · exact hstay hs trivial
  | key | colon =>
    simp only [step] at hs
    split_ifs at hs <;> exact hstay hs trivial
  | after v => exact afterValue_rounded hstack h.scan hs
  | str isKey units =>
    simp only [step] at hs
    split_ifs at hs
    · exact endString_rounded hstack hs
    · exact hstay hs trivial
    · exact hstay hs trivial
  | escape isKey units =>
    simp only [step] at hs
    split_ifs at hs
    · exact hstay hs trivial
    · obtain ⟨e, -, he⟩ := Option.map_eq_some_iff.1 hs
      exact hstay (congrArg some he) trivial
  | hex isKey units count value =>
    obtain ⟨d, -, hd⟩ := Option.map_eq_some_iff.1 hs
    split_ifs at hd <;> exact hstay (congrArg some hd) trivial
  | num units =>
    simp only [step] at hs
    split_ifs at hs
    · exact hstay hs trivial
    · obtain ⟨n, hn, hafter⟩ := Option.bind_eq_some_iff.1 hs
      exact afterValue_rounded hstack (rounded_jsonNumber hn) hafter
  | word w count =>
    simp only [step] at hs
    split_ifs at hs
    · cases hs
      exact ⟨hstack, by cases w <;> trivial⟩
    · exact hstay hs trivial

theorem run_rounded {text : JsString} {s s' : State} (h : s.Rounded) (hs : text.foldlM step s = some s') : s'.Rounded := by
  induction text generalizing s with
  | nil =>
    cases hs
    exact h
  | cons u text ih =>
    rw [List.foldlM_cons] at hs
    obtain ⟨t, ht, hrest⟩ := Option.bind_eq_some_iff.1 hs
    exact ih (step_rounded h ht) hrest

/-- **The numbers of a document have been rounded.** -/
theorem jsonParse_rounded {text : JsString} {v : JsValue} (h : jsonParse text = some v) : Rounded v := by
  obtain ⟨s, hs, hfinish⟩ := Option.bind_eq_some_iff.1 h
  have hempty : State.Rounded ⟨[], .value⟩ := ⟨fun _ hframe => absurd hframe List.not_mem_nil, trivial⟩
  have hrounded := run_rounded hempty hs
  obtain ⟨stack, scan⟩ := s
  cases stack with
  | cons frame stack => cases hfinish
  | nil =>
    cases scan with
    | after w =>
      cases hfinish
      exact hrounded.scan
    | num units =>
      obtain ⟨n, hn, rfl⟩ := Option.map_eq_some_iff.1 hfinish
      exact rounded_jsonNumber hn
    | _ => cases hfinish

end JsonParse

end ShadowsocksOhos
