/-
The values that `JSON.parse` makes, and what the language does to them where the source takes them for something else: a
property of any value, the truth of a value, the comparison of a length with 0. An undefined value is `none`, and a thrown
`TypeError` is an outer `none`.

A profile whose fields come from such a document may hold any value in any field (`JsProfile`).
-/
import ShadowsocksOhos.App.Profile
import ShadowsocksOhos.Core.Binary64
import ShadowsocksOhos.Core.Dict

namespace ShadowsocksOhos

/-! ## Values -/

/-- a number that is not NaN; the two zeros are not told apart -/
inductive JsNumber where
  | finite (q : ℚ)
  | infinite (negative : Bool)
deriving DecidableEq

inductive JsValue where
  | null
  | bool (b : Bool)
  | num (n : JsNumber)
  | str (s : JsString)
  | arr (items : List JsValue)
  | obj (fields : List (JsString × JsValue))

/-! ## Numbers in decimal digits -/

/-- `int.frac e exp`; `dot` tells whether there is a point -/
structure Decimal where
  int : JsString
  dot : Bool
  frac : JsString
  exp : ℤ
deriving DecidableEq

def scanExponent : JsString → Option ℤ
  | [] => some 0
  | u :: rest =>
    if u = unit 'e' ∨ u = unit 'E' then
      let (sign, digits) : ℤ × JsString :=
        match rest with
        | [] => (1, [])
        | v :: digits => if v = unit '-' then (-1, digits) else if v = unit '+' then (1, digits) else (1, v :: digits)
      if digits ≠ [] ∧ digits.all isDigit then some (sign * digitsValue digits) else none
    else none

def scanFraction : JsString → Bool × JsString × JsString
  | [] => (false, [], [])
  | u :: rest =>
    if u = unit '.' then (true, rest.takeWhile isDigit, rest.dropWhile isDigit) else (false, [], u :: rest)

def scanDecimal (s : JsString) : Option Decimal :=
  let (dot, frac, rest) := scanFraction (s.dropWhile isDigit)
  (scanExponent rest).map fun exp => ⟨s.takeWhile isDigit, dot, frac, exp⟩

def Decimal.value (d : Decimal) : ℚ := digitsValue (d.int ++ d.frac) * (10 : ℚ) ^ (d.exp - d.frac.length)

/-- the double next to a magnitude with a sign -/
def toJsNumber (negative : Bool) (q : ℚ) : JsNumber :=
  match Binary64.nearest (if negative then -q else q) with
  | some x => .finite x
  | none => .infinite negative

/-- a minus in front -/
def splitMinus : JsString → Bool × JsString
  | [] => (false, [])
  | u :: rest => if u = unit '-' then (true, rest) else (false, u :: rest)

/-- a number of a JSON text: no leading zeros, and digits on both sides of a point -/
def jsonNumber (s : JsString) : Option JsNumber :=
  let (negative, s) := splitMinus s
  (scanDecimal s).bind fun d =>
    if d.int ≠ [] ∧ (d.int.head? = some (unit '0') → d.int.length = 1) ∧ (d.dot = true → d.frac ≠ []) then
      some (toJsNumber negative d.value)
    else none

/-! ## Strings as numbers -/

/-- `0x`, `0o` or `0b` with digits -/
def radixLiteral : JsString → Option ℕ
  | z :: x :: digits =>
    let radix := if x = unit 'x' ∨ x = unit 'X' then 16 else if x = unit 'o' ∨ x = unit 'O' then 8
      else if x = unit 'b' ∨ x = unit 'B' then 2 else 0
    if z = unit '0' ∧ digits ≠ [] ∧ digits.all (fun u => (hexValue u).any (· < radix)) then
      some (digits.foldl (fun n u => radix * n + (hexValue u).getD 0) 0)
    else none
  | _ => none

/-- a string where a number is needed; `none` is NaN -/
def stringToNumber (s : JsString) : Option JsNumber :=
  let s := jsTrim s
  if s = [] then some (.finite 0)
  else
    match radixLiteral s with
    | some n => some (toJsNumber false n)
    | none =>
      let (negative, s) := if s.head? = some (unit '+') then (false, s.drop 1) else splitMinus s
      if s = js "Infinity" then some (.infinite negative)
      else
        (scanDecimal s).bind fun d => if d.int ++ d.frac ≠ [] then some (toJsNumber negative d.value) else none

/-! ## Operators -/

def JsNumber.positive : JsNumber → Bool
  | .finite q => 0 < q
  | .infinite negative => !negative

namespace JsValue

/-- `!!value` -/
def truthy : JsValue → Bool
  | .null => false
  | .bool b => b
  | .num (.finite q) => q ≠ 0
  | .num (.infinite _) => true
  | .str s => s ≠ []
  | .arr _ | .obj _ => true

/-- a property of a value; no other property of a prototype has a name that the source reads -/
def prop (key : JsString) : JsValue → Option (Option JsValue)
  | .null => none
  | .obj fields => some (Dict.get key fields)
  | .arr items => some (if key = js "length" then some (.num (.finite items.length)) else none)
  | .str s => some (if key = js "length" then some (.num (.finite s.length)) else none)
  | .bool _ | .num _ => some none

mutual

/-- an object is converted to a string unless a field hides the method for it -/
def hasString : JsValue → Bool
  | .obj fields => (Dict.get (js "toString") fields).isNone
  | .arr items => haveStrings items
  | _ => true

/-- an array is converted with its elements -/
def haveStrings : List JsValue → Bool
  | [] => true
  | v :: vs => hasString v && haveStrings vs

end

/-- `[value] > 0`: the string of the array is that of its one element, which is empty for null -/
def singletonPositive : JsValue → Bool
  | .num n => n.positive
  | .str s => (stringToNumber s).any JsNumber.positive
  | .arr [v] => singletonPositive v
  | _ => false

/-- `value > 0`, where an array or an object is converted first -/
def greaterThanZero : JsValue → Option Bool
  | .null => some false
  | .bool b => some b
  | .num n => some n.positive
  | .str s => some ((stringToNumber s).any JsNumber.positive)
  | .arr items => if haveStrings items then some (singletonPositive (.arr items)) else none
  -- the string of an object is no number
  | .obj fields => if hasString (.obj fields) then some false else none

/-- `value.length > 0` -/
def lengthPositive (value : JsValue) : Option Bool :=
  match value.prop (js "length") with
  | some (some length) => length.greaterThanZero
  | some none => some false
  | none => none

/-- `value && value.length > 0` -/
def hasLength : Option JsValue → Option Bool
  | none => some false
  | some v => if v.truthy then v.lengthPositive else some false

/-- `value.length === 0`, of a value that is not null -/
def lengthIsZero (value : JsValue) : Bool :=
  match value.prop (js "length") with
  | some (some (.num (.finite n))) => n = 0
  | _ => false

theorem filter_truthy {v : JsValue} (h : v.truthy = true) : (some v).filter JsValue.truthy = some v := by
  simp [Option.filter, h]

theorem lengthPositive_str (s : JsString) : (JsValue.str s).lengthPositive = some (decide (s ≠ [])) := by
  have hpos : (0 : ℚ) < s.length ↔ s ≠ [] := by rw [Nat.cast_pos, List.length_pos_iff]
  simp [lengthPositive, prop, greaterThanZero, JsNumber.positive, hpos]

end JsValue

/-! ## Profiles -/

/-- a `Profile` whose fields were filled from a document -/
structure JsProfile where
  id : JsValue
  name : JsValue
  host : JsValue
  remotePort : JsValue
  password : JsValue
  method : JsValue
  route : JsValue
  subscriptionId : JsValue
  localAddress : JsValue
  localPort : JsValue
  plugin : JsValue
  pluginOpts : JsValue

/-- the id apart -/
def JsProfile.unnumbered (p : JsProfile) : JsProfile := { p with id := .str [] }

/-- a profile with fields of the declared types -/
def Profile.toJs (p : Profile) : JsProfile where
  id := .str p.id
  name := .str p.name
  host := .str p.host
  remotePort := .num (.finite p.remotePort)
  password := .str p.password
  method := .str p.method
  route := .str p.route
  subscriptionId := .str p.subscriptionId
  localAddress := .str p.localAddress
  localPort := .num (.finite p.localPort)
  plugin := .str p.plugin
  pluginOpts := .str p.pluginOpts

theorem Profile.toJs_injective : Function.Injective Profile.toJs := by
  intro p q h
  cases p
  cases q
  simpa [Profile.toJs] using h

/-- `toTunConfig`: the object that is given to `JSON.stringify` -/
def JsProfile.toTunConfig (aclPath : JsString) (p : JsProfile) : Option JsValue := do
  let withPlugin ← p.plugin.lengthPositive
  let routed : Bool := match p.route with
    | .str route => route ≠ ROUTE_ALL
    | _ => true
  some (.obj ([(js "locals", .arr [.obj [(js "protocol", .str (js "tun"))]]), (js "server", p.host),
    (js "server_port", p.remotePort), (js "password", p.password), (js "method", p.method),
    (js "mode", .str (js "tcp_and_udp"))] ++
    (if withPlugin then [(js "plugin", p.plugin), (js "plugin_opts", p.pluginOpts)] else []) ++
    if routed ∧ aclPath ≠ [] then [(js "acl", .str aclPath)] else []))

/-! ## Ids -/

def HEX : JsString := js "0123456789abcdef"

/-- `newProfileId`; `draw i` is the random number drawn for place `i`, as a number of sixteenths -/
def newProfileId (draw : ℕ → Fin 16) : JsString :=
  (List.range 36).flatMap fun i =>
    if i = 8 ∨ i = 13 ∨ i = 18 ∨ i = 23 then [unit '-']
    else if i = 14 then [unit '4']
    else if i = 19 then (HEX[8 + (draw i).val / 4]?).toList
    else (HEX[(draw i).val]?).toList

def JsProfile.ensureId (newId : JsString) (p : JsProfile) : JsProfile :=
  if p.id.lengthIsZero then { p with id := .str newId } else p

theorem newProfileId_ne (draw : ℕ → Fin 16) : newProfileId draw ≠ [] := by
  have hmem : unit '-' ∈ newProfileId draw := List.mem_flatMap.2 ⟨8, by decide, List.mem_singleton.2 rfl⟩
  exact List.ne_nil_of_mem hmem

end ShadowsocksOhos
