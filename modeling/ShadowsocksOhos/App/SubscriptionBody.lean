/-
The body of a subscription (`parseSubscriptionBody` of `Subscription.ets`): a list of `ss://` URLs, plain or in base64, or
a SIP008 document. Ids come from `newId`, one after another; an outer `none` is a thrown error.

- `parseList_eq`: a list gives one profile for each line that `parseUrl` accepts.
- `parseSip008_eq`: a document gives one profile for each well-formed server, unless an element or the remarks of a server
make the loop throw.
- `isolates_iff`: so a body is parsed as it should be exactly when its document has no such element.
- `aborted`: a document with a null among its servers.
-/
import ShadowsocksOhos.App.JsonParse
import ShadowsocksOhos.App.ProfileUrl

namespace ShadowsocksOhos

namespace SubscriptionBody

/-! ## Lines -/

/-- `split(/\r?\n/)` -/
def splitNewlines : JsString → List JsString
  | [] => [[]]
  | u :: rest =>
    if u = unit '\n' then [] :: splitNewlines rest
    -- a carriage return before a line feed belongs to the end of the line
    else if u = unit '\r' ∧ rest.head? = some (unit '\n') then splitNewlines rest
    else
      match splitNewlines rest with
      | line :: lines => (u :: line) :: lines
      | [] => [[u]]

variable (newId : ℕ → JsString) (subscriptionId : JsString)

/-- the two last steps before a profile is pushed; `n` ids have been drawn -/
def own (n : ℕ) (p : JsProfile) : JsProfile := { p with subscriptionId := .str subscriptionId }.ensureId (newId n)

/-! ## The two formats -/

/-- the loop over the lines; `n` profiles have been pushed -/
def parseList (n : ℕ) : List JsString → List JsProfile
  | [] => []
  | line :: lines =>
    let entry := jsTrim line
    if entry = [] then parseList n lines
    else
      match parseUrl entry with
      | some profile => own newId subscriptionId n profile.toJs :: parseList (n + 1) lines
      | none => parseList n lines

/-- a property, as `!value` sees it -/
def trueProp (v : JsValue) (key : String) : Option (Option JsValue) := (v.prop (js key)).map (·.filter JsValue.truthy)

/-- one round of the loop over the servers: the profile, if there is one -/
def parseServer (server : JsValue) : Option (Option JsProfile) := do
  let host ← trueProp server "server"
  let port ← trueProp server "server_port"
  let password ← trueProp server "password"
  let method ← trueProp server "method"
  match host, port, password, method with
  | some host, some port, some password, some method => do
    let remarks ← server.prop (js "remarks")
    let named ← JsValue.hasLength remarks
    some (some { ({} : Profile).toJs with
      name := (if named then remarks else none).getD host
      host := host
      remotePort := port
      password := password
      method := method })
  | _, _, _, _ => some none

/-- the loop over the servers -/
def parseServers (n : ℕ) : List JsValue → Option (List JsProfile)
  | [] => some []
  | server :: servers => do
    match ← parseServer server with
    | some profile => (parseServers (n + 1) servers).map (own newId subscriptionId n profile :: ·)
    | none => parseServers n servers

/-- what `for (… of servers ?? [])` goes through; what a string is made of are strings -/
def iterate (servers : Option JsValue) : Option (List JsValue) :=
  match servers with
  | none | some .null => some []
  | some (.arr items) => some items
  | some (.str s) => some (s.map fun u => .str [u])
  | _ => none

def parseSip008 (text : JsString) : Option (List JsProfile) :=
  match jsonParse text with
  | none => some []
  | some doc => do
    let servers ← doc.prop (js "servers")
    let items ← iterate servers
    parseServers newId subscriptionId 0 items

def parseSubscriptionBody (body : JsString) : Option (List JsProfile) :=
  let trimmed := jsTrim body
  if trimmed = [] then some []
  else
    let text :=
      if ¬ js "\x7b" <+: trimmed ∧ ¬ js "ss://" <:+: trimmed then decodeBase64 trimmed else some trimmed
    match text with
    | none => some []
    | some text =>
      if js "\x7b" <+: jsTrim text then parseSip008 newId subscriptionId text
      else some (parseList newId subscriptionId 0 (splitNewlines text))

/-! ## What a body says -/

/-- the profile of a well-formed server: an object whose four fields are there and are true -/
def describedServer : JsValue → Option JsProfile
  | .obj fields => do
    let host ← (Dict.get (js "server") fields).filter JsValue.truthy
    let port ← (Dict.get (js "server_port") fields).filter JsValue.truthy
    let password ← (Dict.get (js "password") fields).filter JsValue.truthy
    let method ← (Dict.get (js "method") fields).filter JsValue.truthy
    let remarks := Dict.get (js "remarks") fields
    some { ({} : Profile).toJs with
      name := (if (JsValue.hasLength remarks).getD false then remarks else none).getD host
      host := host
      remotePort := port
      password := password
      method := method }
  | _ => none

/-- the profiles of a document, none when its servers are not an array -/
def described (doc : JsValue) : List JsProfile :=
  match doc.prop (js "servers") with
  | some (some (.arr items)) => items.filterMap describedServer
  | _ => []

/-- the profiles of a list of URLs -/
def listed (text : JsString) : List JsProfile := (splitNewlines text).filterMap fun line => (parseUrl line).map Profile.toJs

/-- the body as a text: as it is, or decoded -/
def bodyText (body : JsString) : Option JsString :=
  let trimmed := jsTrim body
  if js "\x7b" <+: trimmed ∨ js "ss://" <:+: trimmed then some trimmed else decodeBase64 trimmed

/-- the document that a body is, when `JSON.parse` accepts it -/
def documentOf (body : JsString) : Option JsValue :=
  (bodyText body).bind fun text => if js "\x7b" <+: jsTrim text then jsonParse text else none

/-- the profiles that a body describes -/
def subscribed (body : JsString) : List JsProfile :=
  match bodyText body with
  | none => []
  | some text =>
    if js "\x7b" <+: jsTrim text then ((jsonParse text).map described).getD [] else listed text

/-- the body is parsed, and gives what it describes, apart from the ids -/
def Isolates (body : JsString) : Prop :=
  ∃ ps, parseSubscriptionBody newId subscriptionId body = some ps ∧
    ps.map JsProfile.unnumbered = (subscribed body).map (fun p => { p with subscriptionId := .str subscriptionId }) ∧
    ∀ p ∈ ps, p.subscriptionId = .str subscriptionId ∧ ∃ id, id ≠ [] ∧ p.id = .str id

/-- an element that the loop can go over: it is not null, and if it is a well-formed server its remarks do not make the
comparison of their length throw -/
def serverOk (server : JsValue) : Bool :=
  match server with
  | .null => false
  | .obj fields => (describedServer server).isNone || (JsValue.hasLength (Dict.get (js "remarks") fields)).isSome
  | _ => true

/-- a document that the loop can go over -/
def documentOk (doc : JsValue) : Bool :=
  match doc.prop (js "servers") with
  | some none | some (some .null) | some (some (.str _)) => true
  | some (some (.arr items)) => items.all serverOk
  | _ => false

/-! ## One server -/

theorem trueProp_obj (fields : List (JsString × JsValue)) (key : String) :
    trueProp (.obj fields) key = some ((Dict.get (js key) fields).filter JsValue.truthy) := rfl

/-- a string or an array has no property of a server -/
theorem parseServer_none {server : JsValue}
    (h : ∀ key, js key ≠ js "length" → trueProp server key = some none) : parseServer server = some none := by
  unfold parseServer
  rw [h "server" (by decide), h "server_port" (by decide), h "password" (by decide), h "method" (by decide)]
  rfl

/-- a round of the loop gives the well-formed server, or throws -/
theorem parseServer_eq (server : JsValue) :
    parseServer server = if serverOk server then some (describedServer server) else none := by
  cases server with
  | null => rfl
  | bool b => rfl
  | num n => rfl
  | str s =>
    refine parseServer_none ?_
    intro key hkey
    simp only [trueProp, JsValue.prop, if_neg hkey]
    rfl
  | arr items =>
    refine parseServer_none ?_
    intro key hkey
    simp only [trueProp, JsValue.prop, if_neg hkey]
    rfl
  | obj fields =>
    unfold parseServer serverOk describedServer
    simp only [trueProp_obj, JsValue.prop, Option.bind_eq_bind, Option.bind_some]
    cases (Dict.get (js "server") fields).filter JsValue.truthy with
    | none => rfl
    | some host =>
    cases (Dict.get (js "server_port") fields).filter JsValue.truthy with
    | none => rfl
    | some port =>
    cases (Dict.get (js "password") fields).filter JsValue.truthy with
    | none => rfl
    | some password =>
    cases (Dict.get (js "method") fields).filter JsValue.truthy with
    | none => rfl
    | some method =>
    -- all four are true: what is left is the length of the remarks
    cases JsValue.hasLength (Dict.get (js "remarks") fields) with
    | none => rfl
    | some named => rfl

/-! ## The loops -/

/-- the profiles of a subscription, with ids from number `n` on -/
def ownAll (n : ℕ) : List JsProfile → List JsProfile
  | [] => []
  | p :: ps => own newId subscriptionId n p :: ownAll (n + 1) ps

theorem parseServers_eq (n : ℕ) (items : List JsValue) : parseServers newId subscriptionId n items =
    if items.all serverOk then some (ownAll newId subscriptionId n (items.filterMap describedServer)) else none := by
  induction items generalizing n with
  | nil => rfl
  | cons server items ih =>
    rw [List.all_cons]
    unfold parseServers
    rw [parseServer_eq]
    cases hok : serverOk server with
    | false => rfl
    | true =>
      cases hd : describedServer server with
      | none =>
        rw [List.filterMap_cons_none hd, Bool.true_and, ← ih]
        rfl
      | some p =>
        rw [List.filterMap_cons_some hd, Bool.true_and]
        simp only [if_pos, Option.bind_eq_bind, Option.bind_some, ih (n + 1)]
        split_ifs <;> rfl

theorem parseList_eq (n : ℕ) (lines : List JsString) : parseList newId subscriptionId n lines =
    ownAll newId subscriptionId n (lines.filterMap fun line => (parseUrl line).map Profile.toJs) := by
  induction lines generalizing n with
  | nil => rfl
  | cons line lines ih =>
    unfold parseList
    simp only [parseUrl_jsTrim]
    by_cases hblank : jsTrim line = []
    · rw [if_pos hblank, List.filterMap_cons_none (by rw [parseUrl_blank hblank]; rfl)]
      exact ih n
    rw [if_neg hblank]
    cases hurl : parseUrl line with
    | none =>
      rw [List.filterMap_cons_none (by rw [hurl]; rfl)]
      exact ih n
    | some p =>
      rw [List.filterMap_cons_some (b := p.toJs) (by rw [hurl]; rfl)]
      exact congrArg _ (ih (n + 1))

theorem parseSip008_eq (text : JsString) : parseSip008 newId subscriptionId text =
    if (jsonParse text).all documentOk then
      some (ownAll newId subscriptionId 0 (((jsonParse text).map described).getD [])) else none := by
  unfold parseSip008
  cases jsonParse text with
  | none => rfl
  | some doc =>
    simp only [Option.all_some, Option.map_some, Option.getD_some]
    unfold documentOk described
    rcases hservers : doc.prop (js "servers") with _ | _ | v
    · rfl
    · rfl
    cases v with
    | arr items => exact parseServers_eq newId subscriptionId 0 items
    | str s =>
      -- no string is a server
      have hnone : (s.map fun u => JsValue.str [u]).filterMap describedServer = [] := by
        simp [describedServer]
      have hall : (s.map fun u => JsValue.str [u]).all serverOk = true := by simp [serverOk]
      have h := parseServers_eq newId subscriptionId 0 (s.map fun u => JsValue.str [u])
      rw [hall, hnone] at h
      exact h
    | null | bool b | num n | obj fields => rfl

/-- **What the parser makes of a body.** -/
theorem parseSubscriptionBody_eq (body : JsString) : parseSubscriptionBody newId subscriptionId body =
    if (documentOf body).all documentOk then some (ownAll newId subscriptionId 0 (subscribed body)) else none := by
  unfold parseSubscriptionBody documentOf subscribed bodyText
  by_cases hempty : jsTrim body = []
  · have hbrace : ¬ js "\x7b" <+: ([] : JsString) := by decide
    have hss : ¬ js "ss://" <:+: ([] : JsString) := by decide
    have hdecoded : decodeBase64 [] = some [] := rfl
    have hlisted : listed [] = [] := by
      unfold listed splitNewlines
      rw [List.filterMap_cons_none (by rw [parseUrl_blank rfl]; rfl)]
      rfl
    have htrim : jsTrim [] = [] := rfl
    simp [hempty, hbrace, hss, hdecoded, htrim, hlisted, ownAll]
  rw [if_neg hempty]
  have htext : (if ¬ js "\x7b" <+: jsTrim body ∧ ¬ js "ss://" <:+: jsTrim body then decodeBase64 (jsTrim body)
      else some (jsTrim body)) =
      if js "\x7b" <+: jsTrim body ∨ js "ss://" <:+: jsTrim body then some (jsTrim body)
      else decodeBase64 (jsTrim body) := by
    simp only [← not_or, ite_not]
  simp only [htext]
  cases (if js "\x7b" <+: jsTrim body ∨ js "ss://" <:+: jsTrim body then some (jsTrim body)
    else decodeBase64 (jsTrim body)) with
  | none => rfl
  | some text =>
    simp only [Option.bind_some]
    by_cases hbrace : js "\x7b" <+: jsTrim text
    · simp only [if_pos hbrace]
      exact parseSip008_eq newId subscriptionId text
    · simp only [if_neg hbrace]
      exact congrArg some (parseList_eq newId subscriptionId 0 (splitNewlines text))

/-! ## Main result -/

/-- a profile that has no id yet -/
def Anonymous (p : JsProfile) : Prop := p.id = .str []

theorem anonymous_described {server : JsValue} {p : JsProfile} (h : describedServer server = some p) : Anonymous p := by
  unfold describedServer at h
  split at h
  · simp only [Option.bind_eq_bind, Option.bind_eq_some_iff] at h
    obtain ⟨host, -, port, -, password, -, method, -, h⟩ := h
    cases h
    rfl
  · cases h

theorem anonymous_subscribed (body : JsString) : ∀ p ∈ subscribed body, Anonymous p := by
  intro p hp
  unfold subscribed at hp
  split at hp
  · cases hp
  split_ifs at hp
  · cases hdoc : jsonParse _ with
    | none => rw [hdoc] at hp; cases hp
    | some doc =>
      rw [hdoc, Option.map_some, Option.getD_some] at hp
      unfold described at hp
      split at hp
      · obtain ⟨server, -, hserver⟩ := List.mem_filterMap.1 hp
        exact anonymous_described hserver
      · cases hp
  · obtain ⟨line, -, hline⟩ := List.mem_filterMap.1 hp
    obtain ⟨profile, hurl, rfl⟩ := Option.map_eq_some_iff.1 hline
    exact congrArg JsValue.str (parseUrl_some hurl).1

theorem own_eq {n : ℕ} {p : JsProfile} (hp : Anonymous p) :
    own newId subscriptionId n p = { p with subscriptionId := .str subscriptionId, id := .str (newId n) } := by
  have hzero : (JsValue.str []).lengthIsZero = true := by decide
  unfold own JsProfile.ensureId
  rw [if_pos (by rw [hp]; exact hzero)]

/-- the ids apart, the profiles are as they were found -/
theorem ownAll_map (n : ℕ) {ps : List JsProfile} (hps : ∀ p ∈ ps, Anonymous p) :
    (ownAll newId subscriptionId n ps).map JsProfile.unnumbered =
      ps.map (fun p => { p with subscriptionId := .str subscriptionId }) := by
  induction ps generalizing n with
  | nil => rfl
  | cons p ps ih =>
    have hp := hps p List.mem_cons_self
    unfold ownAll
    rw [List.map_cons, List.map_cons, ih (n + 1) fun q hq => hps q (List.mem_cons_of_mem _ hq),
      own_eq newId subscriptionId hp]
    congr 1
    unfold Anonymous at hp
    unfold JsProfile.unnumbered
    rw [← hp]

/-- neither the id nor the owner of a profile matters to the name and the config -/
theorem map_unnumbered {α : Type} {g : JsProfile → α} (hg : ∀ p sub, g { p.unnumbered with subscriptionId := sub } = g p)
    {sub : JsString} {ps qs : List JsProfile}
    (h : ps.map JsProfile.unnumbered = qs.map fun p => { p with subscriptionId := .str sub }) : ps.map g = qs.map g := by
  have hleft : ∀ p : JsProfile, g p.unnumbered = g p := fun p => hg p p.subscriptionId
  have hright : ∀ p : JsProfile, g { p with subscriptionId := .str sub } = g p := fun p => by
    rw [← hleft, ← hg p (.str sub)]
    rfl
  have := congrArg (List.map g) h
  rwa [List.map_map, List.map_map, Function.comp_def, Function.comp_def, List.map_congr_left fun p _ => hleft p,
    List.map_congr_left fun p _ => hright p] at this

theorem ownAll_mem {n : ℕ} {ps : List JsProfile} (hps : ∀ p ∈ ps, Anonymous p) :
    ∀ p ∈ ownAll newId subscriptionId n ps, p.subscriptionId = .str subscriptionId ∧ ∃ k, p.id = .str (newId k) := by
  induction ps generalizing n with
  | nil => exact nofun
  | cons p ps ih =>
    intro q hq
    rcases List.mem_cons.1 hq with rfl | hq
    · rw [own_eq newId subscriptionId (hps p List.mem_cons_self)]
      exact ⟨rfl, n, rfl⟩
    · exact ih (fun r hr => hps r (List.mem_cons_of_mem _ hr)) q hq

/-- **A body is parsed as it should be exactly when the loop over its servers does not throw**: when it is a document that
`JSON.parse` accepts, its servers are absent, null, a string or an array, no element is null, and no well-formed server has
remarks whose length cannot be compared. -/
theorem isolates_iff (draws : ℕ → ℕ → Fin 16) (subscriptionId body : JsString) :
    Isolates (fun n => newProfileId (draws n)) subscriptionId body ↔
      ∀ doc, documentOf body = some doc → documentOk doc = true := by
  have hall : (documentOf body).all documentOk = true ↔ ∀ doc, documentOf body = some doc → documentOk doc = true := by
    cases documentOf body <;> simp
  have hanon := anonymous_subscribed body
  rw [← hall]
  unfold Isolates
  rw [parseSubscriptionBody_eq]
  constructor
  · rintro ⟨ps, hps, -⟩
    by_contra hok
    rw [if_neg hok] at hps
    cases hps
  · intro hok
    rw [if_pos hok]
    refine ⟨_, rfl, ownAll_map _ _ 0 hanon, fun p hp => ?_⟩
    obtain ⟨hsub, k, hid⟩ := ownAll_mem _ _ hanon p hp
    exact ⟨hsub, _, newProfileId_ne _, hid⟩

/-- a null, and a server after it -/
def nullBefore : JsString := js
  "\x7b\"servers\": [null, \x7b\"server\":\"a\",\"server_port\":1,\"password\":\"b\",\"method\":\"c\"\x7d]\x7d"

/-- **One bad entry aborts the subscription.** -/
theorem aborted : ¬ ∀ (draws : ℕ → ℕ → Fin 16) (subscriptionId body : JsString),
    Isolates (fun n => newProfileId (draws n)) subscriptionId body := by
  intro h
  obtain ⟨ps, hps, -⟩ := h (fun _ _ => 0) (js "s") nullBefore
  have hthrow : (parseSubscriptionBody (fun _ => newProfileId fun _ => 0) (js "s") nullBefore).isNone = true := by
    decide +kernel
  rw [hps] at hthrow
  cases hthrow

end SubscriptionBody

end ShadowsocksOhos
