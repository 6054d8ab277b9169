/-
SIP003 plugin specifications (`plugin.rs`, `v2ray_plugin.rs`): the kind of plugin that a `plugin` name and a
`plugin_opts` string stand for. An option string is a list of settings between semicolons; both parsers walk it from
left to right and let later settings overwrite earlier ones.
-/
import ShadowsocksOhos.Core.Dict
import Mathlib.Data.List.DropRight

namespace ShadowsocksOhos

/-- text in the native library: a sequence of Unicode scalar values -/
abbrev Text := List Char

/-! ## Text -/

/-- Unicode white space, which `str::trim` strips -/
def isWhiteSpace (c : Char) : Bool :=
  let n := c.toNat
  (9 ≤ n && n ≤ 13) || n = 0x20 || n = 0x85 || n = 0xa0 || n = 0x1680 || (0x2000 ≤ n && n ≤ 0x200a) || n = 0x2028 ||
    n = 0x2029 || n = 0x202f || n = 0x205f || n = 0x3000

def trim (s : Text) : Text := (s.dropWhile isWhiteSpace).rdropWhile isWhiteSpace

/-- the parts before and after the first `sep` -/
def splitOnce (sep : Char) (s : Text) : Option (Text × Text) :=
  match s.dropWhile (· ≠ sep) with
  | [] => none
  | _ :: after => some (s.takeWhile (· ≠ sep), after)

def toAsciiLowercase (s : Text) : Text := s.map Char.toLower

/-- the non-empty trimmed segments of an option string -/
def tokens (opts : Text) : List Text := ((opts.splitOn ';').map trim).filter (· ≠ [])

/-- key and value of a segment; `bare` is the value of a key that stands alone -/
def keyValue (bare token : Text) : Text × Text :=
  match splitOnce '=' token with
  | some (k, v) => (trim k, trim v)
  | none => (token, bare)

/-! ## v2ray-plugin -/

inductive Mode where
  | websocket
deriving DecidableEq, Repr

structure V2rayPluginConfig where
  mode : Mode
  tls : Bool
  host : Text
  path : Text
  headers : List (Text × Text)
  skipCertVerify : Bool
  mux : Bool
deriving DecidableEq, Repr

def V2rayPluginConfig.default : V2rayPluginConfig := ⟨.websocket, false, [], "/".toList, [], false, false⟩

/-- what `plugin.rs` and `v2ray_plugin.rs` refuse while parsing -/
inductive PluginError where
  | unsupported (name : Text)
  | invalidOptions (message : Text)
deriving DecidableEq, Repr

/-- the text of an error -/
def PluginError.toText : PluginError → Text
  | .unsupported name =>
    "plugin \"".toList ++ name ++
      "\" is not supported: spawning external plugin processes is impossible on HarmonyOS; built-in plugins are obfs-local (simple-obfs) and v2ray-plugin".toList
  | .invalidOptions message => message

def parseBool (s : Text) : Bool :=
  toAsciiLowercase s ∈ ["1".toList, "true".toList, "yes".toList, "on".toList]

/-- one setting of `parse_opts` -/
def v2raySetting (cfg : V2rayPluginConfig) (token : Text) : Except PluginError V2rayPluginConfig :=
  let (key, value) := keyValue "true".toList token
  if key = "mode".toList then
    if toAsciiLowercase value = "websocket".toList ∨ toAsciiLowercase value = "ws".toList then
      .ok { cfg with mode := .websocket }
    else
      .error (.invalidOptions ("v2ray-plugin: unsupported mode '".toList ++ value ++
        "' (only 'websocket' is supported)".toList))
  else if key = "tls".toList then .ok { cfg with tls := parseBool value }
  else if key = "host".toList then .ok { cfg with host := value }
  else if key = "path".toList then .ok { cfg with path := value }
  else if key = "mux".toList then .ok { cfg with mux := parseBool value }
  else if key = "skip-cert-verify".toList then .ok { cfg with skipCertVerify := parseBool value }
  else if key = "header".toList then
    match splitOnce ':' value with
    | some (k, v) => .ok { cfg with headers := Dict.insert (trim k) (trim v) cfg.headers }
    | none => .ok cfg
  else .ok cfg

def parseOpts (s : Text) : Except PluginError V2rayPluginConfig :=
  (tokens s).foldlM v2raySetting .default

/-! ## simple-obfs and the choice of a plugin -/

inductive PluginKind where
  | simpleObfsHttp (host : Text)
  | simpleObfsTls (host : Text)
  | v2ray (cfg : V2rayPluginConfig)
deriving DecidableEq, Repr

/-- one setting of `parse_simple_obfs_opts`, which keeps the mode and the host -/
def simpleObfsSetting (s : Option Text × Text) (token : Text) : Option Text × Text :=
  let (key, value) := keyValue [] token
  if key = "obfs".toList then (some value, s.2)
  else if key = "obfs-host".toList then (s.1, value)
  else s

def parseSimpleObfsOpts (opts : Text) : Except PluginError PluginKind :=
  let (mode, host) := (tokens opts).foldl simpleObfsSetting (none, [])
  match mode with
  | some mode =>
    if mode = "http".toList then .ok (.simpleObfsHttp host)
    else if mode = "tls".toList then .ok (.simpleObfsTls host)
    else
      .error (.invalidOptions ("simple-obfs: unknown obfs mode '".toList ++ mode ++
        "' (expected 'http' or 'tls')".toList))
  | none => .error (.invalidOptions "simple-obfs: missing 'obfs=http|tls' option".toList)

def parsePlugin (name opts : Text) : Except PluginError PluginKind :=
  if name ∈ ["obfs-local".toList, "simple-obfs".toList, "obfs".toList] then parseSimpleObfsOpts opts
  else if name = "v2ray-plugin".toList then (parseOpts opts).map .v2ray
  else .error (.unsupported name)

example : parsePlugin "obfs-local".toList "obfs=http; obfs-host = a.b".toList = .ok (.simpleObfsHttp "a.b".toList) := by
  decide

end ShadowsocksOhos
