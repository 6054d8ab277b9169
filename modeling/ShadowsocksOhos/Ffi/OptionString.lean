/-
Option strings mean settings, not a sequence of them (`plugin.rs`, `v2ray_plugin.rs`). Both parsers walk the segments of a
string from left to right. What they return is decided by the last value of each setting, and by whether an unsupported
mode stands anywhere.

- `Rewrite`: what may be done to the segments.
- `agree_rewrite`: every rewriting leaves the settings as they are (`Agree`).
- `shows_settings`, `simpleObfs_settings`: what the parsers make of the settings.
- `parse_rewritten`: strings, and any number of rewritings.
-/
import ShadowsocksOhos.Core.LastWrite
import ShadowsocksOhos.Ffi.PluginOpts

namespace ShadowsocksOhos

namespace OptionString

open LastWrite

/-! ## Segments -/

inductive Family where
  | simpleObfs
  | v2ray
deriving DecidableEq, Repr

/-- the names that `parse_plugin` takes for the plugin -/
def Family.names : Family → List Text
  | .simpleObfs => ["obfs-local".toList, "simple-obfs".toList, "obfs".toList]
  | .v2ray => ["v2ray-plugin".toList]

/-- the keys that are not ignored -/
def Family.keys : Family → List Text
  | .simpleObfs => ["obfs".toList, "obfs-host".toList]
  | .v2ray => ["mode".toList, "tls".toList, "host".toList, "path".toList, "mux".toList, "skip-cert-verify".toList,
      "header".toList]

/-- the value of a key that stands alone -/
def Family.bare : Family → Text
  | .simpleObfs => []
  | .v2ray => "true".toList

def segments (opts : Text) : List Text := opts.splitOn ';'

/-- key and value of a segment -/
def Family.read (f : Family) (segment : Text) : Text × Text := keyValue f.bare (trim segment)

/-- what a segment sets: a key, or the header of a name -/
inductive Slot where
  | key (key : Text)
  | header (name : Text)
deriving DecidableEq, Repr

/-- the setting of a segment and the value for it -/
def Family.setting (f : Family) (segment : Text) : Slot × Text :=
  let (key, value) := f.read segment
  if key = "header".toList then
    match splitOnce ':' value with
    | some (name, v) => (.header (trim name), trim v)
    | none => (.key key, value)
  else (.key key, value)

def Family.slot (f : Family) (segment : Text) : Slot := (f.setting segment).1

/-- is the setting used? A header without a colon is not -/
def Family.uses (f : Family) : Slot → Bool
  | .key key => f.keys.contains key && key != "header".toList
  | .header _ => f.keys.contains "header".toList

/-- what the segment changes -/
def Family.write (f : Family) (segment : Text) : Option (Slot × Text) :=
  if f.uses (f.slot segment) then some (f.setting segment) else none

/-- a mode that v2ray-plugin refuses -/
def UnsupportedMode (segment : Text) : Prop :=
  (Family.v2ray.read segment).1 = "mode".toList ∧
    ¬ (toAsciiLowercase (Family.v2ray.read segment).2 = "websocket".toList ∨
      toAsciiLowercase (Family.v2ray.read segment).2 = "ws".toList)

instance (segment : Text) : Decidable (UnsupportedMode segment) := inferInstanceAs (Decidable (_ ∧ _))

/-- the error that a segment ends the parse with -/
def Family.refuse : Family → Text → Option PluginError
  | .simpleObfs, _ => none
  | .v2ray, segment =>
    if UnsupportedMode segment then
      some (.invalidOptions ("v2ray-plugin: unsupported mode '".toList ++ (Family.v2ray.read segment).2 ++
        "' (only 'websocket' is supported)".toList))
    else none

/-! ## Rewriting -/

/-- `s` is `x` with white space around it -/
def Padded (x s : Text) : Prop :=
  ∃ a b, s = a ++ x ++ b ∧ (∀ c ∈ a, isWhiteSpace c = true) ∧ ∀ c ∈ b, isWhiteSpace c = true

/-- other white space around the segment, its key, its value, or the name and the value of its header -/
inductive Respaced : Text → Text → Prop where
  | segment {x s s' : Text} (h : Padded x s) (h' : Padded x s') : Respaced s s'
  | setting {key k k' value v v' : Text} (hkey : '=' ∉ key) (hk : Padded key k) (hk' : Padded key k')
      (hv : Padded value v) (hv' : Padded value v') : Respaced (k ++ '=' :: v) (k' ++ '=' :: v')
  | header {k name n n' value v v' : Text} (hk : Padded "header".toList k) (hname : ':' ∉ name)
      (hn : Padded name n) (hn' : Padded name n') (hv : Padded value v) (hv' : Padded value v') :
      Respaced (k ++ '=' :: (n ++ ':' :: v)) (k ++ '=' :: (n' ++ ':' :: v'))

/-- one rewriting of the segments -/
inductive Rewrite (f : Family) : List Text → List Text → Prop where
  | empty (pre post : List Text) {s : Text} (hs : Padded [] s) : Rewrite f (pre ++ post) (pre ++ s :: post)
  | space (pre post : List Text) {s s' : Text} (hs : Respaced s s') : Rewrite f (pre ++ s :: post) (pre ++ s' :: post)
  | unknown (pre post : List Text) {s : Text} (hs : (f.read s).1 ∉ f.keys) : Rewrite f (pre ++ post) (pre ++ s :: post)
  /-- in a run of segments no two of which have the same key, or are headers with the same name -/
  | permute (pre post : List Text) {xs ys : List Text} (hperm : xs.Perm ys)
      (hdistinct : xs.Pairwise fun s t => f.slot s ≠ f.slot t) : Rewrite f (pre ++ (xs ++ post)) (pre ++ (ys ++ post))
  /-- `t` has the same key as `s`, or is a header with the same name -/
  | repeated (pre mid post : List Text) {s t : Text} (hslot : f.slot s = f.slot t)
      (hmode : f = .v2ray → ¬ UnsupportedMode s) :
      Rewrite f (pre ++ s :: (mid ++ t :: post)) (pre ++ (mid ++ t :: post))

/-- any number of rewritings, each of them in either direction -/
def Rewritten (f : Family) : List Text → List Text → Prop := Relation.EqvGen (Rewrite f)

/-- the same plugin; the headers are a map, so their order does not matter -/
inductive SameKind : PluginKind → PluginKind → Prop where
  | simpleObfsHttp (host : Text) : SameKind (.simpleObfsHttp host) (.simpleObfsHttp host)
  | simpleObfsTls (host : Text) : SameKind (.simpleObfsTls host) (.simpleObfsTls host)
  | v2ray (cfg : V2rayPluginConfig) {headers : List (Text × Text)} (h : cfg.headers.Perm headers) :
      SameKind (.v2ray cfg) (.v2ray { cfg with headers := headers })

/-- the same plugin, or the same error -/
inductive SameResult : Except PluginError PluginKind → Except PluginError PluginKind → Prop where
  | ok {kind kind' : PluginKind} (h : SameKind kind kind') : SameResult (.ok kind) (.ok kind')
  | error (e : PluginError) : SameResult (.error e) (.error e)

/-! ## White space -/

theorem trim_padded {x s : Text} (h : Padded x s) : trim s = trim x := by
  obtain ⟨a, b, rfl, ha, hb⟩ := h
  have hright : ∀ y : Text, (y ++ b).rdropWhile isWhiteSpace = y.rdropWhile isWhiteSpace := by
    intro y
    have hrev : ∀ c ∈ b.reverse, isWhiteSpace c = true := fun c hc => hb c (List.mem_reverse.1 hc)
    rw [List.rdropWhile, List.reverse_append, List.dropWhile_append_of_pos hrev]
    rfl
  unfold trim
  rw [List.append_assoc, List.dropWhile_append_of_pos ha, List.dropWhile_append]
  split_ifs with hx
  · have hdrop : b.dropWhile isWhiteSpace = [] := List.dropWhile_eq_nil_iff.2 hb
    rw [List.isEmpty_iff.1 hx, hdrop]
  · exact hright _

theorem padded_all (x : Text) {a b : Text} (ha : a.all isWhiteSpace = true) (hb : b.all isWhiteSpace = true) :
    Padded x (a ++ x ++ b) := ⟨a, b, rfl, List.all_eq_true.1 ha, List.all_eq_true.1 hb⟩

theorem padded_self (x : Text) : Padded x x := by
  have h := @padded_all x [] [] rfl rfl
  rwa [List.nil_append, List.append_nil] at h

theorem padded_dropWhile (s : Text) : Padded (s.dropWhile isWhiteSpace) s :=
  ⟨s.takeWhile isWhiteSpace, [], by rw [List.append_nil, List.takeWhile_append_dropWhile],
    fun c hc => List.mem_takeWhile_imp hc, fun c hc => absurd hc List.not_mem_nil⟩

theorem padded_rdropWhile (s : Text) : Padded (s.rdropWhile isWhiteSpace) s :=
  ⟨[], s.rtakeWhile isWhiteSpace, by rw [List.nil_append, List.rdropWhile_append_rtakeWhile],
    fun c hc => absurd hc List.not_mem_nil, fun c hc => List.mem_rtakeWhile_imp hc⟩

/-- trimming does not reach what stands around a separator -/
theorem trim_separated {c : Char} (hc : isWhiteSpace c = false) (k v : Text) :
    trim (k ++ c :: v) = k.dropWhile isWhiteSpace ++ c :: v.rdropWhile isWhiteSpace := by
  have hleft : (k ++ c :: v).dropWhile isWhiteSpace = k.dropWhile isWhiteSpace ++ c :: v := by
    rw [List.dropWhile_append]
    split_ifs with hk
    · rw [List.isEmpty_iff.1 hk, List.nil_append, List.dropWhile_cons_of_neg (by simp [hc])]
    · rfl
  have hrev : (k.dropWhile isWhiteSpace ++ c :: v).reverse =
      v.reverse ++ c :: (k.dropWhile isWhiteSpace).reverse := by
    rw [List.reverse_append, List.reverse_cons, List.append_assoc, List.singleton_append]
  unfold trim
  rw [hleft, List.rdropWhile, hrev, List.dropWhile_append]
  split_ifs with hv
  · rw [List.dropWhile_cons_of_neg (by simp [hc]), List.reverse_cons, List.reverse_reverse, List.rdropWhile,
      List.isEmpty_iff.1 hv, List.reverse_nil]
  · rw [List.reverse_append, List.reverse_cons, List.reverse_reverse, List.append_assoc, List.singleton_append]
    rfl

/-- what stands on both sides of the first separator -/
theorem splitOnce_trim {c : Char} (hc : isWhiteSpace c = false) {k : Text} (hk : c ∉ k) (v : Text) :
    splitOnce c (trim (k ++ c :: v)) = some (k.dropWhile isWhiteSpace, v.rdropWhile isWhiteSpace) := by
  have hfront : ∀ d ∈ k.dropWhile isWhiteSpace, decide (d ≠ c) = true := by
    intro d hd
    refine decide_eq_true fun hdc => hk ?_
    rw [← hdc]
    exact (List.dropWhile_sublist _).subset hd
  rw [trim_separated hc, splitOnce, List.dropWhile_append_of_pos hfront, List.dropWhile_cons_of_neg (by simp),
    List.takeWhile_append_of_pos hfront, List.takeWhile_cons_of_neg (by simp), List.append_nil]

theorem notMem_padded {c : Char} (hc : isWhiteSpace c = false) {x s : Text} (h : Padded x s) (hx : c ∉ x) : c ∉ s := by
  obtain ⟨a, b, rfl, ha, hb⟩ := h
  rw [List.mem_append, List.mem_append, not_or, not_or]
  refine ⟨⟨fun hm => ?_, hx⟩, fun hm => ?_⟩
  · rw [ha c hm] at hc
    cases hc
  · rw [hb c hm] at hc
    cases hc

/-- the two sides of a separator, each of them trimmed, are those without the white space -/
theorem split_padded {c : Char} (hc : isWhiteSpace c = false) {x k y v : Text} (hx : c ∉ x) (hk : Padded x k)
    (hv : Padded y v) : ∃ k' v', splitOnce c (trim (k ++ c :: v)) = some (k', v') ∧ trim k' = trim x ∧ trim v' = trim y := by
  refine ⟨_, _, splitOnce_trim hc (notMem_padded hc hk hx) v, ?_, ?_⟩
  · rw [← trim_padded (padded_dropWhile k), trim_padded hk]
  · rw [← trim_padded (padded_rdropWhile v), trim_padded hv]

/-! ## Reading a segment -/

theorem read_padded (f : Family) {x s : Text} (h : Padded x s) : f.read s = f.read x := by
  rw [Family.read, Family.read, trim_padded h]

theorem read_setting (f : Family) {key k value v : Text} (hkey : '=' ∉ key) (hk : Padded key k) (hv : Padded value v) :
    f.read (k ++ '=' :: v) = (trim key, trim value) := by
  obtain ⟨k', v', hsplit, hk', hv'⟩ := split_padded (by decide) hkey hk hv
  rw [Family.read, keyValue, hsplit]
  simp only [hk', hv']

theorem read_blank (f : Family) {s : Text} (h : Padded [] s) : f.read s = ([], f.bare) := by
  rw [read_padded f h]
  rfl

theorem blank_notMem (f : Family) : [] ∉ f.keys := by cases f <;> decide

/-- the setting of a header with a colon -/
theorem setting_header (f : Family) {k name n value v : Text} (hk : Padded "header".toList k) (hname : ':' ∉ name)
    (hn : Padded name n) (hv : Padded value v) :
    f.setting (k ++ '=' :: (n ++ ':' :: v)) = (.header (trim name), trim value) := by
  obtain ⟨n', v', hsplit, hn', hv'⟩ := split_padded (by decide) hname hn hv
  have hheader : trim "header".toList = "header".toList := by decide
  rw [Family.setting, read_setting f (by decide) hk (padded_self _), hheader]
  simp only [if_true, hsplit, hn', hv']

/-- a segment that is no header sets its key -/
theorem setting_key (f : Family) {s : Text} (h : (f.read s).1 ≠ "header".toList) :
    f.setting s = (.key (f.read s).1, (f.read s).2) := by
  rw [Family.setting]
  exact if_neg h

/-- the key of the setting of a segment -/
theorem slot_key (f : Family) (s : Text) : f.slot s = .key (f.read s).1 ∨
    (f.read s).1 = "header".toList ∧ ∃ name, f.slot s = .header name := by
  by_cases h : (f.read s).1 = "header".toList
  · rw [Family.slot, Family.setting]
    simp only [if_pos h]
    cases splitOnce ':' (f.read s).2 with
    | none => exact Or.inl rfl
    | some e => exact Or.inr ⟨h, _, rfl⟩
  · rw [Family.slot, setting_key f h]
    exact Or.inl rfl

theorem uses_key (f : Family) (key : Text) : f.uses (.key key) = true ↔ key ∈ f.keys ∧ key ≠ "header".toList := by
  simp [Family.uses]

theorem uses_header (f : Family) (name : Text) : f.uses (.header name) = true ↔ "header".toList ∈ f.keys :=
  List.contains_iff_mem

/-- an unknown key is not used -/
theorem unused_of_unknown {f : Family} {s : Text} (h : (f.read s).1 ∉ f.keys) : ¬ f.uses (f.slot s) = true := by
  rcases slot_key f s with hslot | ⟨hkey, name, hslot⟩
  · rw [hslot, uses_key]
    exact fun huses => h huses.1
  · rw [hslot, uses_header, ← hkey]
    exact h

theorem write_none {f : Family} {s : Text} (h : ¬ f.uses (f.slot s) = true) : f.write s = none := if_neg h

/-- what a segment writes, and where -/
theorem written_eq (f : Family) (slot : Slot) (s : Text) :
    written f.write slot s = if f.slot s = slot ∧ f.uses slot then some (f.setting s).2 else none := by
  by_cases huses : f.uses (f.slot s) = true
  · have hwrite : f.write s = some (f.slot s, (f.setting s).2) := if_pos huses
    rw [written_some hwrite]
    refine if_congr ?_ rfl rfl
    exact ⟨fun h => ⟨h, h ▸ huses⟩, And.left⟩
  · rw [written_none (write_none huses), if_neg]
    rintro ⟨rfl, h⟩
    exact huses h

theorem refuse_none (f : Family) {s : Text} (h : (Family.v2ray.read s).1 ≠ "mode".toList) : f.refuse s = none := by
  cases f with
  | simpleObfs => rfl
  | v2ray => exact if_neg fun hmode => h hmode.1

theorem slot_of_refuse {f : Family} {s : Text} (h : f.refuse s ≠ none) : f.slot s = .key "mode".toList := by
  cases f with
  | simpleObfs => exact absurd rfl h
  | v2ray =>
    have hmode : (Family.v2ray.read s).1 = "mode".toList := by
      by_contra hc
      exact h (refuse_none .v2ray hc)
    rcases slot_key .v2ray s with hslot | ⟨hkey, -⟩
    · rw [hslot, hmode]
    · exact absurd (hmode.symm.trans hkey) (by decide)

theorem written_key {f : Family} {key : Text} (hkey : key ∈ f.keys) (hne : key ≠ "header".toList) (s : Text) :
    written f.write (.key key) s = if (f.read s).1 = key then some (f.read s).2 else none := by
  rw [written_eq]
  by_cases h : (f.read s).1 = key
  · have hsetting := setting_key f (h ▸ hne)
    have hslot : f.slot s = .key key := by rw [Family.slot, hsetting, h]
    rw [if_pos h, if_pos ⟨hslot, (uses_key f key).2 ⟨hkey, hne⟩⟩, hsetting]
  · rw [if_neg h, if_neg]
    rintro ⟨hslot, -⟩
    rcases slot_key f s with hs | ⟨-, name, hs⟩
    · exact h (Slot.key.inj (hs.symm.trans hslot))
    · cases hs.symm.trans hslot

/-- a blank segment is no token -/
theorem foldlM_tokens {m : Type → Type} [Monad m] [LawfulMonad m] {σ : Type} {step : σ → Text → m σ}
    (hblank : ∀ st, step st [] = pure st) (opts : Text) (st : σ) :
    (tokens opts).foldlM step st = (segments opts).foldlM (fun st s => step st (trim s)) st := by
  unfold tokens segments
  rw [List.foldlM_filter, List.foldlM_map]
  congr 1
  funext st s
  by_cases hs : trim s = []
  · rw [hs, if_neg (by decide), hblank]
  · rw [if_pos (decide_eq_true hs)]

theorem foldl_tokens {σ : Type} {step : σ → Text → σ} (hblank : ∀ st, step st [] = st) (opts : Text) (st : σ) :
    (tokens opts).foldl step st = (segments opts).foldl (fun st s => step st (trim s)) st := by
  rw [List.foldl_eq_foldlM, List.foldl_eq_foldlM, foldlM_tokens hblank]

/-! ## simple-obfs -/

theorem simpleObfs_step (st : Option Text × Text) (s : Text) : simpleObfsSetting st (trim s) =
    ((written Family.simpleObfs.write (.key "obfs".toList) s).elim st.1 some,
      (written Family.simpleObfs.write (.key "obfs-host".toList) s).elim st.2 id) := by
  have hread : keyValue [] (trim s) = Family.simpleObfs.read s := rfl
  rw [written_key (by decide) (by decide), written_key (by decide) (by decide)]
  unfold simpleObfsSetting
  rw [hread]
  rcases Family.simpleObfs.read s with ⟨key, value⟩
  dsimp only
  by_cases hobfs : key = "obfs".toList
  · subst hobfs
    rfl
  by_cases hhost : key = "obfs-host".toList
  · subst hhost
    rfl
  · rw [if_neg hobfs, if_neg hhost, if_neg hobfs, if_neg hhost]
    rfl

/-- **simple-obfs**: the last mode and the last host. -/
theorem simpleObfs_settings (opts : Text) : (tokens opts).foldl simpleObfsSetting (none, []) =
    ((last Family.simpleObfs.write (.key "obfs".toList) (segments opts)).elim none some,
      (last Family.simpleObfs.write (.key "obfs-host".toList) (segments opts)).elim [] id) := by
  rw [foldl_tokens (fun _ => rfl)]
  refine Prod.ext ?_ ?_
  · exact look_foldl Prod.fst (fun st s => by rw [simpleObfs_step]) _ _
  · exact look_foldl Prod.snd (fun st s => by rw [simpleObfs_step]) _ _

/-! ## v2ray-plugin -/

/-- what a segment does to the config when it is not refused -/
def applySetting (cfg : V2rayPluginConfig) (s : Text) : V2rayPluginConfig where
  mode := cfg.mode
  tls := (written Family.v2ray.write (.key "tls".toList) s).elim cfg.tls parseBool
  host := (written Family.v2ray.write (.key "host".toList) s).elim cfg.host id
  path := (written Family.v2ray.write (.key "path".toList) s).elim cfg.path id
  headers :=
    match Family.v2ray.setting s with
    | (.header name, v) => Dict.insert name v cfg.headers
    | (.key _, _) => cfg.headers
  skipCertVerify := (written Family.v2ray.write (.key "skip-cert-verify".toList) s).elim cfg.skipCertVerify parseBool
  mux := (written Family.v2ray.write (.key "mux".toList) s).elim cfg.mux parseBool

theorem v2raySetting_error (cfg : V2rayPluginConfig) {s : Text} (h : UnsupportedMode s) :
    v2raySetting cfg (trim s) = .error (.invalidOptions ("v2ray-plugin: unsupported mode '".toList ++
      (Family.v2ray.read s).2 ++ "' (only 'websocket' is supported)".toList)) := by
  have hread : keyValue "true".toList (trim s) = Family.v2ray.read s := rfl
  unfold v2raySetting
  rw [hread]
  dsimp only
  rw [if_pos h.1, if_neg h.2]

theorem v2raySetting_ok (cfg : V2rayPluginConfig) {s : Text} (h : ¬ UnsupportedMode s) :
    v2raySetting cfg (trim s) = .ok (applySetting cfg s) := by
  have hread : keyValue "true".toList (trim s) = Family.v2ray.read s := rfl
  unfold applySetting
  simp only [@written_key .v2ray "tls".toList (by decide) (by decide),
    @written_key .v2ray "host".toList (by decide) (by decide),
    @written_key .v2ray "path".toList (by decide) (by decide),
    @written_key .v2ray "mux".toList (by decide) (by decide),
    @written_key .v2ray "skip-cert-verify".toList (by decide) (by decide)]
  unfold UnsupportedMode at h
  unfold v2raySetting Family.setting
  rw [hread]
  generalize Family.v2ray.read s = keyValue at h
  obtain ⟨key, value⟩ := keyValue
  dsimp only at h ⊢
  -- the known keys one by one, each of which sets one field
  by_cases hmode : key = "mode".toList
  · subst hmode
    rw [if_pos rfl, if_pos (not_not.1 fun hc => h ⟨rfl, hc⟩)]
    rfl
  rw [if_neg hmode]
  by_cases htls : key = "tls".toList
  · subst htls
    rfl
  by_cases hhost : key = "host".toList
  · subst hhost
    rfl
  by_cases hpath : key = "path".toList
  · subst hpath
    rfl
  by_cases hmux : key = "mux".toList
  · subst hmux
    rfl
  by_cases hskip : key = "skip-cert-verify".toList
  · subst hskip
    rfl
  simp only [if_neg htls, if_neg hhost, if_neg hpath, if_neg hmux, if_neg hskip]
  by_cases hheader : key = "header".toList
  · subst hheader
    rw [if_pos rfl, if_pos rfl]
    cases splitOnce ':' value with
    | none => rfl
    | some e => rfl
  · rw [if_neg hheader, if_neg hheader]
    rfl

theorem v2ray_step (cfg : V2rayPluginConfig) (s : Text) :
    v2raySetting cfg (trim s) = (Family.v2ray.refuse s).elim (.ok (applySetting cfg s)) .error := by
  by_cases h : UnsupportedMode s
  · have hrefuse : Family.v2ray.refuse s = some _ := if_pos h
    rw [v2raySetting_error cfg h, hrefuse]
    rfl
  · have hrefuse : Family.v2ray.refuse s = none := if_neg h
    rw [v2raySetting_ok cfg h, hrefuse]
    rfl

theorem headers_applySetting (cfg : V2rayPluginConfig) (s name : Text) : Dict.get name (applySetting cfg s).headers =
    (written Family.v2ray.write (.header name) s).elim (Dict.get name cfg.headers) some := by
  have huses : Family.v2ray.uses (.header name) = true := (uses_header .v2ray name).2 (by decide)
  rw [written_eq]
  unfold applySetting Family.slot
  rcases Family.v2ray.setting s with ⟨key | other, v⟩
  · rw [if_neg fun h => nomatch h.1]
    rfl
  · by_cases hother : other = name
    · rw [hother, if_pos ⟨rfl, huses⟩]
      exact Dict.get_insert_self name v cfg.headers
    · rw [if_neg fun h => hother (Slot.header.inj h.1)]
      exact Dict.get_insert_of_ne (Ne.symm hother) v cfg.headers

theorem nodup_applySetting {cfg : V2rayPluginConfig} (h : (cfg.headers.map Prod.fst).Nodup) (s : Text) :
    ((applySetting cfg s).headers.map Prod.fst).Nodup := by
  unfold applySetting
  rcases Family.v2ray.setting s with ⟨key | name, v⟩
  · exact h
  · exact Dict.nodup_insert h name v

/-- the config of these settings -/
structure Shows (settings : Slot → Option Text) (cfg : V2rayPluginConfig) : Prop where
  tls : cfg.tls = (settings (.key "tls".toList)).elim false parseBool
  host : cfg.host = (settings (.key "host".toList)).elim [] id
  path : cfg.path = (settings (.key "path".toList)).elim "/".toList id
  headers : ∀ name, Dict.get name cfg.headers = settings (.header name)
  nodup : (cfg.headers.map Prod.fst).Nodup
  skipCertVerify : cfg.skipCertVerify = (settings (.key "skip-cert-verify".toList)).elim false parseBool
  mux : cfg.mux = (settings (.key "mux".toList)).elim false parseBool

/-- **v2ray-plugin**: the last value of each setting, or its default. -/
theorem shows_settings (segs : List Text) :
    Shows (fun slot => last Family.v2ray.write slot segs) (segs.foldl applySetting .default) where
  tls := look_foldl V2rayPluginConfig.tls (fun _ _ => rfl) _ _
  host := look_foldl V2rayPluginConfig.host (fun _ _ => rfl) _ _
  path := look_foldl V2rayPluginConfig.path (fun _ _ => rfl) _ _
  headers := by
    intro name
    have hlook := look_foldl (fun cfg : V2rayPluginConfig => Dict.get name cfg.headers)
      (fun cfg s => headers_applySetting cfg s name) .default segs
    rw [hlook]
    cases last Family.v2ray.write (.header name) segs <;> rfl
  nodup := by
    induction segs using List.reverseRecOn with
    | nil => exact List.nodup_nil
    | append_singleton segs s ih =>
      rw [List.foldl_append]
      exact nodup_applySetting ih s
  skipCertVerify := look_foldl V2rayPluginConfig.skipCertVerify (fun _ _ => rfl) _ _
  mux := look_foldl V2rayPluginConfig.mux (fun _ _ => rfl) _ _

theorem Shows.sameKind {settings : Slot → Option Text} {cfg cfg' : V2rayPluginConfig} (h : Shows settings cfg)
    (h' : Shows settings cfg') : SameKind (.v2ray cfg) (.v2ray cfg') := by
  have hperm : cfg.headers.Perm cfg'.headers :=
    Dict.perm_of_get h.nodup h'.nodup fun name => (h.headers name).trans (h'.headers name).symm
  have hcfg : cfg' = { cfg with headers := cfg'.headers } := by
    have htls := h'.tls.trans h.tls.symm
    have hhost := h'.host.trans h.host.symm
    have hpath := h'.path.trans h.path.symm
    have hskip := h'.skipCertVerify.trans h.skipCertVerify.symm
    have hmux := h'.mux.trans h.mux.symm
    rcases cfg' with ⟨⟨⟩, tls, host, path, headers, skip, mux⟩
    dsimp only at htls hhost hpath hskip hmux
    rw [htls, hhost, hpath, hskip, hmux]
  rw [hcfg]
  exact .v2ray cfg hperm

/-- the parse fails at the first unsupported mode -/
theorem parseOpts_settings (opts : Text) : parseOpts opts = ((segments opts).findSome? Family.v2ray.refuse).elim
    (.ok ((segments opts).foldl applySetting .default)) .error := by
  rw [parseOpts, foldlM_tokens (fun _ => rfl), foldlM_refuse v2ray_step]

/-! ## Settings are kept -/

/-- the same settings, and the same refusal -/
structure Agree (f : Family) (xs ys : List Text) : Prop where
  settings : ∀ slot, last f.write slot xs = last f.write slot ys
  refused : xs.findSome? f.refuse = ys.findSome? f.refuse

variable {f : Family}

theorem Agree.refl (xs : List Text) : Agree f xs xs := ⟨fun _ => rfl, rfl⟩

theorem Agree.symm {xs ys : List Text} (h : Agree f xs ys) : Agree f ys xs :=
  ⟨fun slot => (h.settings slot).symm, h.refused.symm⟩

theorem Agree.trans {xs ys zs : List Text} (h : Agree f xs ys) (h' : Agree f ys zs) : Agree f xs zs :=
  ⟨fun slot => (h.settings slot).trans (h'.settings slot), h.refused.trans h'.refused⟩

/-- a segment with an unknown key does nothing -/
theorem agree_unknown (pre post : List Text) {s : Text} (hs : (f.read s).1 ∉ f.keys) :
    Agree f (pre ++ post) (pre ++ s :: post) := by
  have hrefuse : f.refuse s = none := by
    cases f with
    | simpleObfs => rfl
    | v2ray => exact refuse_none .v2ray fun hmode => hs (by rw [hmode]; decide)
  refine ⟨fun slot => ?_, (findSome?_skip hrefuse pre post).symm⟩
  exact (last_skip (written_none (write_none (unused_of_unknown hs))) pre post).symm

theorem same_of_read (f : Family) {s s' : Text} (h : ∀ f : Family, f.read s = f.read s') :
    f.setting s = f.setting s' ∧ f.refuse s = f.refuse s' := by
  refine ⟨by rw [Family.setting, Family.setting, h], ?_⟩
  cases f with
  | simpleObfs => rfl
  | v2ray =>
    have hmode : UnsupportedMode s ↔ UnsupportedMode s' := by rw [UnsupportedMode, UnsupportedMode, h]
    simp only [Family.refuse, h]
    exact if_congr hmode rfl rfl

/-- white space makes no difference to a segment -/
theorem respaced_same (f : Family) {s s' : Text} (h : Respaced s s') :
    f.setting s = f.setting s' ∧ f.refuse s = f.refuse s' := by
  cases h with
  | segment h h' => exact same_of_read f fun f => by rw [read_padded f h, read_padded f h']
  | setting hkey hk hk' hv hv' =>
    exact same_of_read f fun f => by rw [read_setting f hkey hk hv, read_setting f hkey hk' hv']
  | @header k name n n' value v v' hk hname hn hn' hv hv' =>
    have hheader : trim "header".toList ≠ "mode".toList := by decide
    have hnone : ∀ rest, f.refuse (k ++ '=' :: rest) = none := by
      intro rest
      refine refuse_none f ?_
      rw [read_setting .v2ray (by decide) hk (padded_self rest)]
      exact hheader
    rw [setting_header f hk hname hn hv, setting_header f hk hname hn' hv', hnone, hnone]
    exact ⟨rfl, rfl⟩

theorem agree_respaced (pre post : List Text) {s s' : Text} (h : Respaced s s') :
    Agree f (pre ++ s :: post) (pre ++ s' :: post) := by
  obtain ⟨hsetting, hrefuse⟩ := respaced_same f h
  refine ⟨fun slot => ?_, ?_⟩
  · have hwritten : written f.write slot s = written f.write slot s' := by
      rw [written_eq, written_eq, Family.slot, Family.slot, hsetting]
    rw [last_append, last_append, last_cons, last_cons, hwritten]
  · rw [List.findSome?_append, List.findSome?_append, List.findSome?_cons, List.findSome?_cons, hrefuse]

/-- segments for different settings do not meet -/
theorem agree_permute (pre post : List Text) {xs ys : List Text} (hperm : xs.Perm ys)
    (hdistinct : xs.Pairwise fun s t => f.slot s ≠ f.slot t) : Agree f (pre ++ (xs ++ post)) (pre ++ (ys ++ post)) := by
  refine ⟨fun slot => ?_, ?_⟩
  · have hone : xs.Pairwise fun s t => written f.write slot s = none ∨ written f.write slot t = none := by
      refine hdistinct.imp fun {s t} hne => ?_
      rw [written_eq, written_eq]
      by_cases hs : f.slot s = slot
      · exact Or.inr (if_neg fun ht => hne (hs.trans ht.1.symm))
      · exact Or.inl (if_neg fun h => hs h.1)
    rw [last_append, last_append, last_append, last_append, last_perm hperm hone]
  · have hone : xs.Pairwise fun s t => f.refuse s = none ∨ f.refuse t = none := by
      refine hdistinct.imp fun {s t} hne => ?_
      by_contra hc
      obtain ⟨hs, ht⟩ := not_or.1 hc
      exact hne ((slot_of_refuse hs).trans (slot_of_refuse ht).symm)
    rw [List.findSome?_append, List.findSome?_append, List.findSome?_append, List.findSome?_append,
      findSome?_perm hperm hone]

/-- a later segment for the same setting takes the place of an earlier one -/
theorem agree_repeated (pre mid post : List Text) {s t : Text} (hslot : f.slot s = f.slot t)
    (hmode : f = .v2ray → ¬ UnsupportedMode s) : Agree f (pre ++ s :: (mid ++ t :: post)) (pre ++ (mid ++ t :: post)) := by
  have hrefuse : f.refuse s = none := by
    cases f with
    | simpleObfs => rfl
    | v2ray => exact if_neg (hmode rfl)
  refine ⟨fun slot => ?_, findSome?_skip hrefuse pre _⟩
  refine last_overwritten ?_ pre mid post
  rw [written_eq, written_eq, hslot]
  split_ifs with h
  · exact fun hc => nomatch hc
  · exact fun _ => rfl

/-- **Every rewriting keeps the settings.** -/
theorem agree_rewrite {xs ys : List Text} (h : Rewrite f xs ys) : Agree f xs ys := by
  cases h with
  | empty pre post hs =>
    have hread := read_blank f hs
    exact agree_unknown pre post (by rw [hread]; exact blank_notMem f)
  | space pre post hs => exact agree_respaced pre post hs
  | unknown pre post hs => exact agree_unknown pre post hs
  | permute pre post hperm hdistinct => exact agree_permute pre post hperm hdistinct
  | repeated pre mid post hslot hmode => exact agree_repeated pre mid post hslot hmode

theorem agree_rewritten {xs ys : List Text} (h : Rewritten f xs ys) : Agree f xs ys := by
  induction h with
  | rel xs ys h => exact agree_rewrite h
  | refl xs => exact .refl xs
  | symm xs ys _ ih => exact ih.symm
  | trans xs ys zs _ _ ih ih' => exact ih.trans ih'

/-! ## Option strings -/

theorem SameKind.refl (kind : PluginKind) : SameKind kind kind := by
  cases kind with
  | simpleObfsHttp host => exact .simpleObfsHttp host
  | simpleObfsTls host => exact .simpleObfsTls host
  | v2ray cfg => exact .v2ray cfg (.refl _)

theorem SameResult.refl (r : Except PluginError PluginKind) : SameResult r r := by
  cases r with
  | ok kind => exact .ok (.refl kind)
  | error e => exact .error e

theorem parsePlugin_simpleObfs {name : Text} (hname : name ∈ Family.simpleObfs.names) (opts : Text) :
    parsePlugin name opts = parseSimpleObfsOpts opts := if_pos hname

theorem parsePlugin_v2ray {name : Text} (hname : name ∈ Family.v2ray.names) (opts : Text) :
    parsePlugin name opts = (parseOpts opts).map .v2ray := by
  obtain rfl := List.mem_singleton.1 hname
  rw [parsePlugin, if_neg (by decide), if_pos rfl]

/-- **Strings with the same settings mean the same plugin.** -/
theorem parse_agree {name : Text} (hname : name ∈ f.names) {opts opts' : Text}
    (h : Agree f (segments opts) (segments opts')) : SameResult (parsePlugin name opts) (parsePlugin name opts') := by
  cases f with
  | simpleObfs =>
    have hparse : parseSimpleObfsOpts opts = parseSimpleObfsOpts opts' := by
      rw [parseSimpleObfsOpts, parseSimpleObfsOpts, simpleObfs_settings, simpleObfs_settings, h.settings, h.settings]
    rw [parsePlugin_simpleObfs hname, parsePlugin_simpleObfs hname, hparse]
    exact .refl _
  | v2ray =>
    rw [parsePlugin_v2ray hname, parsePlugin_v2ray hname, parseOpts_settings, parseOpts_settings, h.refused]
    cases (segments opts').findSome? Family.v2ray.refuse with
    | some e => exact .error e
    | none =>
      have hshows := shows_settings (segments opts)
      rw [funext h.settings] at hshows
      exact .ok (hshows.sameKind (shows_settings (segments opts')))

theorem parseOpts_error (opts : Text) : (∃ e, parseOpts opts = .error e) ↔ ∃ s ∈ segments opts, UnsupportedMode s := by
  have hrefuse : ∀ s, Family.v2ray.refuse s = none ↔ ¬ UnsupportedMode s := by
    intro s
    by_cases hmode : UnsupportedMode s
    · exact iff_of_false (by rw [Family.refuse, if_pos hmode]; exact nofun) (not_not.2 hmode)
    · exact iff_of_true (if_neg hmode) hmode
  rw [parseOpts_settings]
  cases hfirst : (segments opts).findSome? Family.v2ray.refuse with
  | none =>
    refine iff_of_false (fun h => ?_) ?_
    · obtain ⟨e, he⟩ := h
      cases he
    · rintro ⟨s, hs, hmode⟩
      exact (hrefuse s).1 (List.findSome?_eq_none_iff.1 hfirst s hs) hmode
  | some e =>
    refine iff_of_true ⟨e, rfl⟩ ?_
    obtain ⟨s, hs, he⟩ := List.exists_of_findSome?_eq_some hfirst
    refine ⟨s, hs, ?_⟩
    by_contra hmode
    rw [(hrefuse s).2 hmode] at he
    cases he

/-- **Settings, not a sequence.** Rewriting an option string changes neither the plugin nor the error that it is parsed to.
With v2ray-plugin that is an error exactly when an unsupported mode stands somewhere in the string. -/
theorem parse_rewritten (f : Family) {name : Text} (hname : name ∈ f.names) (opts : Text) :
    (∀ opts', Rewritten f (segments opts) (segments opts') →
      SameResult (parsePlugin name opts) (parsePlugin name opts')) ∧
    (f = .v2ray → ((∃ e, parsePlugin name opts = .error e) ↔ ∃ s ∈ segments opts, UnsupportedMode s)) := by
  constructor
  · intro opts' h
    exact parse_agree hname (agree_rewritten h)
  · rintro rfl
    rw [← parseOpts_error, parsePlugin_v2ray hname]
    cases parseOpts opts with
    | ok cfg => exact iff_of_false (fun ⟨_, h⟩ => nomatch h) fun ⟨_, h⟩ => nomatch h
    | error e => exact iff_of_true ⟨e, rfl⟩ ⟨e, rfl⟩

/-- the two segments of `tls;host=a`, permuted, spaced, and with an empty segment, an unknown key and a repeated one -/
theorem rewritten_tls : Rewritten .v2ray (segments "tls;host=a".toList) (segments " host = a ;;foo=1;tls=0;tls".toList) := by
  have hbefore : segments "tls;host=a".toList = ["tls".toList, "host=a".toList] := by decide
  have hafter : segments " host = a ;;foo=1;tls=0;tls".toList =
      [" host = a ".toList, [], "foo=1".toList, "tls=0".toList, "tls".toList] := by decide
  have hpermuted : Rewrite .v2ray ["tls".toList, "host=a".toList] ["host=a".toList, "tls".toList] :=
    @Rewrite.permute .v2ray [] [] ["tls".toList, "host=a".toList] ["host=a".toList, "tls".toList] (.swap _ _ _) (by decide)
  have hkey : Padded "host".toList " host ".toList := @padded_all "host".toList " ".toList " ".toList rfl rfl
  have hvalue : Padded "a".toList " a ".toList := @padded_all "a".toList " ".toList " ".toList rfl rfl
  have hspaced : Rewrite .v2ray ["host=a".toList, "tls".toList] [" host = a ".toList, "tls".toList] :=
    .space [] ["tls".toList] (.setting (by decide) (padded_self "host".toList) hkey (padded_self "a".toList) hvalue)
  have hempty : Rewrite .v2ray [" host = a ".toList, "tls".toList] [" host = a ".toList, [], "tls".toList] :=
    .empty [" host = a ".toList] ["tls".toList] (padded_self [])
  have hunknown : Rewrite .v2ray [" host = a ".toList, [], "tls".toList]
      [" host = a ".toList, [], "foo=1".toList, "tls".toList] :=
    .unknown [" host = a ".toList, []] ["tls".toList] (by decide)
  have hrepeated : Rewrite .v2ray [" host = a ".toList, [], "foo=1".toList, "tls=0".toList, "tls".toList]
      [" host = a ".toList, [], "foo=1".toList, "tls".toList] :=
    .repeated [" host = a ".toList, [], "foo=1".toList] [] [] (by decide) fun _ => by decide
  rw [hbefore, hafter]
  exact .trans _ _ _ (.rel _ _ hpermuted) (.trans _ _ _ (.rel _ _ hspaced) (.trans _ _ _ (.rel _ _ hempty)
    (.trans _ _ _ (.rel _ _ hunknown) (.symm _ _ (.rel _ _ hrepeated)))))

theorem parse_rewritten_tls : SameResult (parsePlugin "v2ray-plugin".toList "tls;host=a".toList)
    (parsePlugin "v2ray-plugin".toList " host = a ;;foo=1;tls=0;tls".toList) :=
  (parse_rewritten .v2ray (by decide) "tls;host=a".toList).1 _ rewritten_tls

end OptionString

end ShadowsocksOhos
