/-
`JSON.parse`, as a machine that takes one code unit after another. `Frame`s are the arrays and objects that have been
begun, the innermost first, and `Scan` says what comes next in the innermost one. A number ends with the first unit that
cannot belong to it.

- `jsonParse_around`: white space around a document is skipped if it is white space of JSON, and nothing is read otherwise.
- `jsonParse_obj`: the text of an object begins with a brace.
-/
import ShadowsocksOhos.App.JsValue

namespace ShadowsocksOhos

namespace JsonParse

/-! ## The machine -/

inductive Frame where
  /-- the items so far -/
  | arr (items : List JsValue)
  /-- the fields so far, and the key of the value that is read -/
  | obj (fields : List (JsString × JsValue)) (key : JsString)

inductive Word where
  | tt
  | ff
  | null
deriving DecidableEq, Repr

def Word.text : Word → JsString
  | .tt => js "true"
  | .ff => js "false"
  | .null => js "null"

def Word.value : Word → JsValue
  | .tt => .bool true
  | .ff => .bool false
  | .null => .null

inductive Scan where
  | value
  /-- after `[` -/
  | firstItem
  /-- after `\x7b` -/
  | firstKey
  | key
  | colon
  /-- a value has been read -/
  | after (v : JsValue)
  /-- in a string, or a key -/
  | str (isKey : Bool) (units : JsString)
  /-- after a backslash -/
  | escape (isKey : Bool) (units : JsString)
  /-- in the four hexadecimal digits of an escape -/
  | hex (isKey : Bool) (units : JsString) (count value : ℕ)
  | num (units : JsString)
  /-- in a word, of which `count` units have been read -/
  | word (w : Word) (count : ℕ)

structure State where
  stack : List Frame
  scan : Scan

def isJsonSpace (u : UInt16) : Bool := u = unit ' ' || u = unit '\t' || u = unit '\n' || u = unit '\r'

def quote : UInt16 := unit '\x22'

def backslash : UInt16 := unit '\x5c'

/-- the first unit of a value -/
def beginValue (stack : List Frame) (u : UInt16) : Option State :=
  if u = quote then some ⟨stack, .str false []⟩
  else if u = unit '\x7b' then some ⟨.obj [] [] :: stack, .firstKey⟩
  else if u = unit '[' then some ⟨.arr [] :: stack, .firstItem⟩
  else if u = unit '-' ∨ isDigit u then some ⟨stack, .num [u]⟩
  else if u = unit 't' then some ⟨stack, .word .tt 1⟩
  else if u = unit 'f' then some ⟨stack, .word .ff 1⟩
  else if u = unit 'n' then some ⟨stack, .word .null 1⟩
  else none

/-- the unit after a value `v`, and after white space -/
def afterValue (stack : List Frame) (v : JsValue) (u : UInt16) : Option State :=
  if isJsonSpace u then some ⟨stack, .after v⟩
  else
    match stack with
    | .arr items :: stack =>
      if u = unit ',' then some ⟨.arr (items ++ [v]) :: stack, .value⟩
      else if u = unit ']' then some ⟨stack, .after (.arr (items ++ [v]))⟩
      else none
    | .obj fields key :: stack =>
      -- a key that occurs again replaces the value
      if u = unit ',' then some ⟨.obj (Dict.insert key v fields) [] :: stack, .key⟩
      else if u = unit '\x7d' then some ⟨stack, .after (.obj (Dict.insert key v fields))⟩
      else none
    | [] => none

/-- a string has been read: it is the key of the innermost object, or a value -/
def endString (stack : List Frame) (isKey : Bool) (units : JsString) : Option State :=
  if isKey then
    match stack with
    | .obj fields _ :: stack => some ⟨.obj fields units :: stack, .colon⟩
    | _ => none
  else some ⟨stack, .after (.str units)⟩

/-- the unit that an escape stands for -/
def escaped (u : UInt16) : Option UInt16 :=
  if u = quote ∨ u = backslash ∨ u = unit '/' then some u
  else if u = unit 'b' then some 8
  else if u = unit 'f' then some 12
  else if u = unit 'n' then some 10
  else if u = unit 'r' then some 13
  else if u = unit 't' then some 9
  else none

/-- the units that numbers are made of -/
def inNumber (u : UInt16) : Bool :=
  isDigit u || u = unit '-' || u = unit '+' || u = unit '.' || u = unit 'e' || u = unit 'E'

def step (s : State) (u : UInt16) : Option State :=
  match s.scan with
  | .value => if isJsonSpace u then some s else beginValue s.stack u
  | .firstItem =>
    if isJsonSpace u then some s
    else if u = unit ']' then
      match s.stack with
      | .arr items :: stack => some ⟨stack, .after (.arr items)⟩
      | _ => none
    else beginValue s.stack u
  | .firstKey =>
    if isJsonSpace u then some s
    else if u = unit '\x7d' then
      match s.stack with
      | .obj fields _ :: stack => some ⟨stack, .after (.obj fields)⟩
      | _ => none
    else if u = quote then some { s with scan := .str true [] }
    else none
  | .key => if isJsonSpace u then some s else if u = quote then some { s with scan := .str true [] } else none
  | .colon => if isJsonSpace u then some s else if u = unit ':' then some { s with scan := .value } else none
  | .after v => afterValue s.stack v u
  | .str isKey units =>
    if u = quote then endString s.stack isKey units
    else if u = backslash then some { s with scan := .escape isKey units }
    else if u.toNat < 0x20 then none
    else some { s with scan := .str isKey (units ++ [u]) }
  | .escape isKey units =>
    if u = unit 'u' then some { s with scan := .hex isKey units 0 0 }
    else (escaped u).map fun e => { s with scan := .str isKey (units ++ [e]) }
  | .hex isKey units count value =>
    (hexValue u).map fun d =>
      if count = 3 then { s with scan := .str isKey (units ++ [fromCharCode (16 * value + d)]) }
      else { s with scan := .hex isKey units (count + 1) (16 * value + d) }
  | .num units =>
    if inNumber u then some { s with scan := .num (units ++ [u]) }
    else (jsonNumber units).bind fun n => afterValue s.stack (.num n) u
  | .word w count =>
    if w.text[count]? ≠ some u then none
    else if count + 1 = w.text.length then some { s with scan := .after w.value }
    else some { s with scan := .word w (count + 1) }

/-- the value at the end of the text -/
def finish (s : State) : Option JsValue :=
  match s.stack, s.scan with
  | [], .after v => some v
  | [], .num units => (jsonNumber units).map .num
  | _, _ => none

end JsonParse

open JsonParse in
/-- `JSON.parse`; `none` for a `SyntaxError` -/
def jsonParse (text : JsString) : Option JsValue := (text.foldlM step ⟨[], .value⟩).bind finish

example : (jsonParse (js "[1.5e1, \"a\\u0062\", \x7b\"k\": null\x7d]")).isSome = true := by decide +kernel

namespace JsonParse

/-! ## White space -/

theorem space_ne {u : UInt16} (h : isJsSpace u = true) {c : Char} (hc : isJsSpace (unit c) = false) : u ≠ unit c := by
  rintro rfl
  rw [h] at hc
  cases hc

theorem space_notMem {u : UInt16} (h : isJsSpace u = true) {cs : List Char}
    (hcs : (cs.all fun c => !isJsSpace (unit c)) = true) : ∀ c ∈ cs, u ≠ unit c := by
  intro c hc
  have hno := List.all_eq_true.1 hcs c hc
  rw [Bool.not_eq_true'] at hno
  exact space_ne h hno

theorem isDigit_space {u : UInt16} (h : isJsSpace u = true) : isDigit u = false := by
  by_contra hc
  rw [isDigit_not_space (by simpa using hc)] at h
  cases h

theorem jsonSpace_space {u : UInt16} (h : isJsonSpace u = true) : isJsSpace u = true := by
  simp only [isJsonSpace, Bool.or_eq_true, decide_eq_true_eq] at h
  rcases h with ((rfl | rfl) | rfl) | rfl <;> decide

theorem hexValue_space {u : UInt16} (h : isJsSpace u = true) : hexValue u = none := by
  unfold isJsSpace at h
  simp only [Bool.or_eq_true, Bool.and_eq_true, decide_eq_true_eq] at h
  unfold hexValue
  simp only
  split_ifs <;> first | rfl | omega

theorem inNumber_space {u : UInt16} (h : isJsSpace u = true) : inNumber u = false := by
  have hne : ∀ c ∈ ['-', '+', '.', 'e', 'E'], u ≠ unit c := space_notMem h (by decide)
  simp only [List.mem_cons, List.not_mem_nil, or_false, forall_eq_or_imp, forall_eq] at hne
  unfold inNumber
  simp [hne, isDigit_space h]

theorem escaped_space {u : UInt16} (h : isJsSpace u = true) : escaped u = none := by
  have hne : ∀ c ∈ ['\x22', '\x5c', '/', 'b', 'f', 'n', 'r', 't'], u ≠ unit c := space_notMem h (by decide)
  simp only [List.mem_cons, List.not_mem_nil, or_false, forall_eq_or_imp, forall_eq] at hne
  unfold escaped quote backslash
  simp [hne]

theorem beginValue_space {u : UInt16} (h : isJsSpace u = true) (stack : List Frame) : beginValue stack u = none := by
  have hne : ∀ c ∈ ['\x22', '\x7b', '[', '-', 't', 'f', 'n'], u ≠ unit c := space_notMem h (by decide)
  simp only [List.mem_cons, List.not_mem_nil, or_false, forall_eq_or_imp, forall_eq] at hne
  unfold beginValue quote
  simp [hne, isDigit_space h]

theorem Word.text_space (w : Word) {u : UInt16} (h : isJsSpace u = true) (count : ℕ) : w.text[count]? ≠ some u := by
  intro hu
  have hmem := List.mem_of_getElem? hu
  have hall : ∀ v ∈ w.text, isJsSpace v = false := by
    cases w <;> exact forall_mem_of_all (by decide)
  rw [hall u hmem] at h
  cases h

/-! ### Around a document -/

/-- white space of JSON does not change what is read -/
theorem step_space {s : State} {u : UInt16} (h : isJsonSpace u = true) : (step s u).bind finish = finish s := by
  obtain ⟨stack, scan⟩ := s
  have hjs := jsonSpace_space h
  cases scan with
  | value | firstItem | firstKey | key | colon => simp only [step, if_pos h, Option.bind_some]
  | after v => simp only [step, afterValue, if_pos h, Option.bind_some]
  | str isKey units =>
    have hq : u ≠ quote := space_ne hjs (by decide)
    have hb : u ≠ backslash := space_ne hjs (by decide)
    simp only [step, if_neg hq, if_neg hb]
    split_ifs <;> cases stack <;> rfl
  | escape isKey units =>
    have hu : u ≠ unit 'u' := space_ne hjs (by decide)
    simp only [step, if_neg hu, escaped_space hjs]
    cases stack <;> rfl
  | hex isKey units count value =>
    simp only [step, hexValue_space hjs]
    cases stack <;> rfl
  | num units =>
    simp only [step, inNumber_space hjs, afterValue, if_pos h]
    cases stack <;> cases hn : jsonNumber units <;> simp [finish, hn]
  | word w count =>
    simp only [step, if_pos (w.text_space hjs count)]
    cases stack <;> rfl

/-- other white space is a unit of a string, or is refused -/
theorem step_other {s s' : State} {u : UInt16} (hjs : isJsSpace u = true) (h : isJsonSpace u = false)
    (hs : step s u = some s') : ∃ isKey units, s'.scan = .str isKey units := by
  obtain ⟨stack, scan⟩ := s
  have hne : ∀ {c : Char}, isJsSpace (unit c) = false → u ≠ unit c := fun hc => space_ne hjs hc
  have hno : ¬ isJsonSpace u = true := by simp [h]
  have hafter : ∀ v, afterValue stack v u = none := by
    intro v
    unfold afterValue
    rw [if_neg hno]
    split
    · rw [if_neg (hne (by decide)), if_neg (hne (by decide))]
    · rw [if_neg (hne (by decide)), if_neg (hne (by decide))]
    · rfl
  cases scan with
  | value => simp [step, hno, beginValue_space hjs] at hs
  | firstItem => simp [step, hno, hne (c := ']') (by decide), beginValue_space hjs] at hs
  | firstKey =>
    have hq : u ≠ quote := hne (by decide)
    simp [step, hno, hne (c := '\x7d') (by decide), hq] at hs
  | key =>
    have hq : u ≠ quote := hne (by decide)
    simp [step, hno, hq] at hs
  | colon => simp [step, hno, hne (c := ':') (by decide)] at hs
  | after v => simp [step, hafter] at hs
  | str isKey units =>
    have hq : u ≠ quote := hne (by decide)
    have hb : u ≠ backslash := hne (by decide)
    simp only [step, if_neg hq, if_neg hb] at hs
    split_ifs at hs
    cases hs
    exact ⟨isKey, units ++ [u], rfl⟩
  | escape isKey units => simp [step, hne (c := 'u') (by decide), escaped_space hjs] at hs
  | hex isKey units count value => simp [step, hexValue_space hjs] at hs
  | num units => simp [step, inNumber_space hjs, hafter] at hs
  | word w count => simp [step, w.text_space hjs count] at hs

/-- in a string, white space does not close it -/
theorem step_str {s s' : State} {u : UInt16} (hjs : isJsSpace u = true) {isKey : Bool} {units : JsString}
    (hscan : s.scan = .str isKey units) (hs : step s u = some s') : ∃ isKey units, s'.scan = .str isKey units := by
  have hq : u ≠ quote := space_ne hjs (by decide)
  have hb : u ≠ backslash := space_ne hjs (by decide)
  simp only [step, hscan, if_neg hq, if_neg hb] at hs
  split_ifs at hs
  cases hs
  exact ⟨isKey, units ++ [u], rfl⟩

theorem finish_str {s : State} {isKey : Bool} {units : JsString} (hscan : s.scan = .str isKey units) : finish s = none := by
  obtain ⟨stack, scan⟩ := s
  cases hscan
  cases stack <;> rfl

theorem foldlM_cons {s : State} (u : UInt16) (text : JsString) :
    ((u :: text).foldlM step s).bind finish = (step s u).bind fun s' => (text.foldlM step s').bind finish := by
  rw [List.foldlM_cons]
  exact Option.bind_assoc _ _ _

theorem foldlM_str {s : State} {text : JsString} (h : ∀ u ∈ text, isJsSpace u = true) {isKey : Bool} {units : JsString}
    (hscan : s.scan = .str isKey units) : (text.foldlM step s).bind finish = none := by
  induction text generalizing s isKey units with
  | nil => exact finish_str hscan
  | cons u text ih =>
    rw [foldlM_cons]
    cases hs : step s u with
    | none => rfl
    | some s' =>
      obtain ⟨isKey', units', hscan'⟩ := step_str (h u List.mem_cons_self) hscan hs
      exact ih (fun v hv => h v (List.mem_cons_of_mem _ hv)) hscan'

/-- white space after a document: all of it has to be of JSON -/
theorem foldlM_space (s : State) {text : JsString} (h : ∀ u ∈ text, isJsSpace u = true) :
    (text.foldlM step s).bind finish = if text.all isJsonSpace then finish s else none := by
  induction text generalizing s with
  | nil => rfl
  | cons u text ih =>
    have htext := fun v hv => h v (List.mem_cons_of_mem u hv)
    have hu := h u List.mem_cons_self
    rw [foldlM_cons]
    cases hj : isJsonSpace u with
    | true =>
      have hstep : (step s u).bind finish = finish s := step_space hj
      cases hs : step s u with
      | none =>
        rw [hs] at hstep
        simp only [List.all_cons, hj, Bool.true_and, Option.bind_none, ← hstep, ite_self]
      | some s' =>
        rw [hs] at hstep
        rw [Option.bind_some, ih s' htext, List.all_cons, hj, Bool.true_and, ← hstep, Option.bind_some]
    | false =>
      rw [List.all_cons, hj, Bool.false_and]
      cases hs : step s u with
      | none => rfl
      | some s' =>
        obtain ⟨isKey, units, hscan⟩ := step_other hu hj hs
        exact foldlM_str htext hscan

/-- white space before a document -/
theorem foldlM_before {space : JsString} (h : ∀ u ∈ space, isJsSpace u = true) (stack : List Frame) :
    space.foldlM step ⟨stack, .value⟩ = if space.all isJsonSpace then some ⟨stack, .value⟩ else none := by
  induction space with
  | nil => rfl
  | cons u space ih =>
    rw [List.foldlM_cons, List.all_cons]
    cases hj : isJsonSpace u with
    | true =>
      have hstep : step ⟨stack, .value⟩ u = some ⟨stack, .value⟩ := if_pos hj
      rw [hstep, Bool.true_and]
      exact ih fun v hv => h v (List.mem_cons_of_mem u hv)
    | false =>
      have hstep : step ⟨stack, .value⟩ u = none := by
        simp [step, hj, beginValue_space (h u List.mem_cons_self)]
      rw [hstep]
      rfl

/-- **White space around a document**: it is skipped if it is white space of JSON, and else nothing is read. -/
theorem jsonParse_around {before after : JsString} (hb : ∀ u ∈ before, isJsSpace u = true)
    (ha : ∀ u ∈ after, isJsSpace u = true) (text : JsString) :
    jsonParse (before ++ text ++ after) =
      if before.all isJsonSpace ∧ after.all isJsonSpace then jsonParse text else none := by
  unfold jsonParse
  rw [List.foldlM_append, List.foldlM_append, foldlM_before hb]
  cases hbs : before.all isJsonSpace with
  | false => simp
  | true =>
    have hbind : (some ⟨[], .value⟩ >>= fun s => text.foldlM step s) = text.foldlM step ⟨[], .value⟩ := rfl
    rw [if_pos rfl, hbind]
    cases htext : text.foldlM step ⟨[], .value⟩ with
    | none => simp
    | some s =>
      have := foldlM_space s ha
      simpa using this

/-! ## The first unit -/

/-- an array encloses what is read -/
def InArray (stack : List Frame) : Prop := ∃ items, stack.getLast? = some (.arr items)

/-- the value that is read, outside of all others, is no object -/
def Scan.NoObject : Scan → Prop
  | .after v => ∀ fields, v ≠ .obj fields
  | .str isKey _ | .escape isKey _ | .hex isKey _ _ _ => isKey = false
  | .num _ | .word _ _ => True
  | _ => False

def NoObject (s : State) : Prop := InArray s.stack ∨ (s.stack = [] ∧ s.scan.NoObject)

theorem InArray.push {stack : List Frame} (h : InArray stack) (frame : Frame) : InArray (frame :: stack) := by
  obtain ⟨items, hlast⟩ := h
  cases stack with
  | nil => cases hlast
  | cons f fs => exact ⟨items, hlast⟩

theorem InArray.pop {stack : List Frame} {frame : Frame} (h : InArray (frame :: stack)) :
    InArray stack ∨ (stack = [] ∧ ∃ items, frame = .arr items) := by
  obtain ⟨items, hlast⟩ := h
  cases stack with
  | nil => exact Or.inr ⟨rfl, items, Option.some.inj hlast⟩
  | cons f fs => exact Or.inl ⟨items, hlast⟩

theorem InArray.obj {stack : List Frame} {fields : List (JsString × JsValue)} {key : JsString}
    (h : InArray (.obj fields key :: stack)) : InArray stack := by
  rcases h.pop with h | ⟨-, items, hc⟩
  · exact h
  · cases hc

theorem InArray.arr {stack : List Frame} {items : List JsValue} (h : InArray (.arr items :: stack)) (items' : List JsValue) :
    InArray (.arr items' :: stack) := by
  rcases h.pop with h | ⟨rfl, -⟩
  · exact h.push _
  · exact ⟨items', rfl⟩

theorem InArray.close {stack : List Frame} {items : List JsValue} (h : InArray (.arr items :: stack))
    (items' : List JsValue) : NoObject ⟨stack, .after (.arr items')⟩ := by
  rcases h.pop with h | ⟨rfl, -⟩
  · exact Or.inl h
  · exact Or.inr ⟨rfl, nofun⟩

theorem beginValue_noObject {stack : List Frame} (h : InArray stack) {u : UInt16} {s : State}
    (hs : beginValue stack u = some s) : NoObject s := by
  unfold beginValue at hs
  split_ifs at hs <;> cases hs
  all_goals first | exact Or.inl h | exact Or.inl (h.push _)

theorem afterValue_noObject {stack : List Frame} (h : InArray stack) {v : JsValue} {u : UInt16} {s : State}
    (hs : afterValue stack v u = some s) : NoObject s := by
  rcases stack with _ | ⟨items | ⟨fields, key⟩, stack⟩ <;> simp only [afterValue] at hs <;>
    split_ifs at hs <;> cases hs
  · exact Or.inl h
  · exact Or.inl h
  · exact Or.inl (h.arr _)
  · exact h.close _
  · exact Or.inl h
  · exact Or.inl (h.obj.push _)
  · exact Or.inl h.obj

theorem endString_noObject {stack : List Frame} (h : InArray stack) {isKey : Bool} {units : JsString} {s : State}
    (hs : endString stack isKey units = some s) : NoObject s := by
  unfold endString at hs
  split_ifs at hs
  · split at hs
    · cases hs
      exact Or.inl (h.obj.push _)
    · cases hs
  · cases hs
    exact Or.inl h

/-- a step inside an array -/
theorem step_inArray {s s' : State} {u : UInt16} (h : InArray s.stack) (hs : step s u = some s') : NoObject s' := by
  obtain ⟨stack, scan⟩ := s
  have hstay : ∀ scan', some (⟨stack, scan'⟩ : State) = some s' → NoObject s' := by
    intro scan' hsome
    cases hsome
    exact Or.inl h
  cases scan with
  | value =>
    simp only [step] at hs
    split_ifs at hs
    · exact hstay _ hs
    · exact beginValue_noObject h hs
  | firstItem =>
    simp only [step] at hs
    split_ifs at hs
    · exact hstay _ hs
    · split at hs
      · cases hs
        exact h.close _
      · cases hs
    · exact beginValue_noObject h hs
  | firstKey =>
    simp only [step] at hs
    split_ifs at hs
    · exact hstay _ hs
    · split at hs
      · cases hs
        exact Or.inl h.obj
      · cases hs
    · exact hstay _ hs
  | key | colon =>
    simp only [step] at hs
    split_ifs at hs <;> exact hstay _ hs
  | after v => exact afterValue_noObject h hs
  | str isKey units =>
    simp only [step] at hs
    split_ifs at hs
    · exact endString_noObject h hs
    · exact hstay _ hs
    · exact hstay _ hs
  | escape isKey units =>
    simp only [step] at hs
    split_ifs at hs
    · exact hstay _ hs
    · obtain ⟨e, -, he⟩ := Option.map_eq_some_iff.1 hs
      exact hstay _ (congrArg some he)
  | hex isKey units count value =>
    obtain ⟨d, -, hd⟩ := Option.map_eq_some_iff.1 hs
    split_ifs at hd <;> exact hstay _ (congrArg some hd)
  | num units =>
    simp only [step] at hs
    split_ifs at hs
    · exact hstay _ hs
    · obtain ⟨n, -, hn⟩ := Option.bind_eq_some_iff.1 hs
      exact afterValue_noObject h hn
  | word w count =>
    simp only [step] at hs
    split_ifs at hs <;> exact hstay _ hs

/-- a step in a value that nothing encloses -/
theorem step_outside {scan : Scan} {s' : State} {u : UInt16} (h : scan.NoObject) (hs : step ⟨[], scan⟩ u = some s') :
    NoObject s' := by
  have hgo : ∀ {scan' : Scan}, some (⟨[], scan'⟩ : State) = some s' → scan'.NoObject → NoObject s' := by
    intro scan' hsome hscan
    cases hsome
    exact Or.inr ⟨rfl, hscan⟩
  have hafter : ∀ {v : JsValue}, afterValue [] v u = some s' → (∀ fields, v ≠ .obj fields) → NoObject s' := by
    intro v hv' hv
    unfold afterValue at hv'
    split_ifs at hv'
    exact hgo hv' hv
  cases scan with
  | value | firstItem | firstKey | key | colon => exact absurd h id
  | after v => exact hafter hs h
  | str isKey units =>
    have hkey : isKey = false := h
    simp only [step] at hs
    split_ifs at hs
    · rw [hkey] at hs
      exact hgo hs fun _ => nofun
    · exact hgo hs hkey
    · exact hgo hs hkey
  | escape isKey units =>
    simp only [step] at hs
    split_ifs at hs
    · exact hgo hs h
    · obtain ⟨e, -, he⟩ := Option.map_eq_some_iff.1 hs
      exact hgo (congrArg some he) h
  | hex isKey units count value =>
    obtain ⟨d, -, hd⟩ := Option.map_eq_some_iff.1 hs
    split_ifs at hd
    · exact hgo (congrArg some hd) h
    · exact hgo (congrArg some hd) h
  | num units =>
    simp only [step] at hs
    split_ifs at hs
    · exact hgo hs trivial
    · obtain ⟨n, -, hn⟩ := Option.bind_eq_some_iff.1 hs
      exact hafter hn fun _ => nofun
  | word w count =>
    simp only [step] at hs
    split_ifs at hs
    · refine hgo hs ?_
      cases w <;> exact fun _ => nofun
    · exact hgo hs trivial

theorem noObject_run {text : JsString} {s s' : State} (h : NoObject s) (hs : text.foldlM step s = some s') : NoObject s' := by
  induction text generalizing s with
  | nil => cases hs; exact h
  | cons u text ih =>
    rw [List.foldlM_cons] at hs
    obtain ⟨t, ht, hrest⟩ := Option.bind_eq_some_iff.1 hs
    refine ih ?_ hrest
    rcases h with h | ⟨hstack, hscan⟩
    · exact step_inArray h ht
    · obtain ⟨stack, scan⟩ := s
      cases hstack
      exact step_outside hscan ht

/-- **A text that is an object begins with a brace.** -/
theorem jsonParse_obj {text : JsString} {fields : List (JsString × JsValue)} (h : jsonParse text = some (.obj fields)) :
    js "\x7b" <+: jsTrim text := by
  obtain ⟨a, b, htext, ha, hb⟩ := jsTrim_split text
  rw [htext, jsonParse_around ha hb] at h
  split_ifs at h
  obtain ⟨s, hs, hfinish⟩ := Option.bind_eq_some_iff.1 h
  cases htrim : jsTrim text with
  | nil =>
    rw [htrim] at hs
    cases hs
    cases hfinish
  | cons u rest =>
    rw [htrim, List.foldlM_cons] at hs
    obtain ⟨t, ht, hrest⟩ := Option.bind_eq_some_iff.1 hs
    have hspace : ¬ isJsonSpace u = true := fun hc => by
      have := jsTrim_head htrim
      rw [jsonSpace_space hc] at this
      cases this
    have hbegin : beginValue [] u = some t := by simpa [step, hspace] using ht
    by_cases hbrace : u = unit '\x7b'
    · rw [hbrace]
      exact ⟨rest, rfl⟩
    · -- any other first unit begins something else
      have hno : NoObject t := by
        unfold beginValue at hbegin
        rw [if_neg hbrace] at hbegin
        split_ifs at hbegin <;> cases hbegin
        · exact Or.inr ⟨rfl, rfl⟩
        · exact Or.inl ⟨[], rfl⟩
        all_goals exact Or.inr ⟨rfl, trivial⟩
      have hend := noObject_run hno hrest
      obtain ⟨stack, scan⟩ := s
      rcases hend with ⟨items, hlast⟩ | ⟨hstack, hscan⟩
      · cases stack with
        | nil => cases hlast
        | cons f fs => cases hfinish
      · cases hstack
        cases scan with
        | after v =>
          have hv : v = .obj fields := Option.some.inj hfinish
          exact absurd hv (hscan fields)
        | num units =>
          obtain ⟨n, -, hn⟩ := Option.map_eq_some_iff.1 hfinish
          cases hn
        | _ => cases hfinish

end JsonParse

end ShadowsocksOhos
