/-
Profiles (`Profile.ets`): the class with its defaults, the hand-written base64 decoder, and `parseUrl`, which reads an
`ss://` URL in its SIP002 form (the user info alone is base64) or in its legacy form (everything is base64). A thrown
error is `none`; `parseUrl` returns `none` where the source returns null.

The language's own `decodeURIComponent` and `encodeURIComponent` follow the standard: the first reads escapes strictly
(well-formed, shortest UTF-8), the second is given here on texts, where it does not throw.
-/
import Mathlib.Data.Rat.Defs
import ShadowsocksOhos.App.Utf8

namespace ShadowsocksOhos

/-! ## The class -/

def ROUTE_ALL : JsString := js "all"

def DEFAULT_SOCKS_PORT : ℚ := 1080

structure Profile where
  id : JsString := []
  name : JsString := js "Default"
  host : JsString := []
  remotePort : ℚ := 8388
  password : JsString := []
  method : JsString := js "aes-256-gcm"
  route : JsString := ROUTE_ALL
  /-- the subscription that owns the profile, if not empty -/
  subscriptionId : JsString := []
  localAddress : JsString := js "127.0.0.1"
  localPort : ℚ := DEFAULT_SOCKS_PORT
  plugin : JsString := []
  pluginOpts : JsString := []
deriving DecidableEq

/-- `newId` is what `newProfileId` draws -/
def Profile.ensureId (newId : JsString) (p : Profile) : Profile := if p.id = [] then { p with id := newId } else p

/-! ## decodeBase64 -/

def ALPHABET : JsString := js "ABCDEFGHIJKLMNOPQRSTUVWXYZabcdefghijklmnopqrstuvwxyz0123456789+/"

/-- `replaceAll('-', '+').replaceAll('_', '/')` -/
def normalize (text : JsString) : JsString :=
  (text.map fun u => if u = unit '-' then unit '+' else u).map fun u => if u = unit '_' then unit '/' else u

/-- the loop over the characters; `buffer` is the signed 32-bit number of the language's bit operations -/
def decodeBase64Loop (buffer : BitVec 32) (bits : ℕ) : JsString → Option (List ℕ)
  | [] => some []
  | c :: rest =>
    if c = unit '=' then some []
    else if c = unit ' ' ∨ c = unit '\t' ∨ c = unit '\r' ∨ c = unit '\n' then decodeBase64Loop buffer bits rest
    else
      match indexOf c ALPHABET with
      | none => none
      | some value =>
        let buffer := (buffer <<< 6) ||| BitVec.ofNat 32 value
        let bits := bits + 6
        if 8 ≤ bits then
          let bits := bits - 8
          (decodeBase64Loop buffer bits rest).map (((buffer.sshiftRight bits) &&& 0xff#32).toNat :: ·)
        else decodeBase64Loop buffer bits rest

def decodeBase64 (text : JsString) : Option JsString := (decodeBase64Loop 0 0 (normalize text)).map decodeUtf8

/-! ## Percent escapes -/

def hexValue (u : UInt16) : Option ℕ :=
  let n := u.toNat
  if 0x30 ≤ n ∧ n ≤ 0x39 then some (n - 0x30)
  else if 0x41 ≤ n ∧ n ≤ 0x46 then some (n - 0x37)
  else if 0x61 ≤ n ∧ n ≤ 0x66 then some (n - 0x57)
  else none

/-- a code unit that stands for itself, or an escaped byte -/
inductive Piece where
  | unit (u : UInt16)
  | byte (b : ℕ)
deriving DecidableEq, Repr

/-- the escapes of a string, or `none` when a `%` is not followed by two hexadecimal digits -/
def pieces : JsString → Option (List Piece)
  | [] => some []
  | u :: rest =>
    if u ≠ unit '%' then (pieces rest).map (.unit u :: ·)
    else
      match rest with
      | h :: l :: rest =>
        match hexValue h, hexValue l with
        | some a, some b => (pieces rest).map (.byte (a * 16 + b) :: ·)
        | _, _ => none
      | _ => none

/-- the bytes `octets` are the UTF-8 encoding of the scalar value `p` -/
def scalar (p : ℕ) (octets : List ℕ) : Option JsString :=
  if p.isValidChar ∧ encodePoint p = octets then some (codeUnits p) else none

/-- escaped bytes have to be well-formed UTF-8 -/
def decodePieces : List Piece → Option JsString
  | [] => some []
  | .unit u :: rest => (decodePieces rest).map (u :: ·)
  | .byte b :: rest =>
    if b < 0x80 then (decodePieces rest).map (fromCharCode b :: ·)
    else if b &&& 0xe0 = 0xc0 then
      match rest with
      | .byte b1 :: rest =>
        (scalar (pushSix (b &&& 0x1f) b1) [b, b1]).bind fun units => (decodePieces rest).map (units ++ ·)
      | _ => none
    else if b &&& 0xf0 = 0xe0 then
      match rest with
      | .byte b1 :: .byte b2 :: rest =>
        (scalar (pushSix (pushSix (b &&& 0x0f) b1) b2) [b, b1, b2]).bind fun units =>
          (decodePieces rest).map (units ++ ·)
      | _ => none
    else if b &&& 0xf8 = 0xf0 then
      match rest with
      | .byte b1 :: .byte b2 :: .byte b3 :: rest =>
        (scalar (pushSix (pushSix (pushSix (b &&& 0x07) b1) b2) b3) [b, b1, b2, b3]).bind fun units =>
          (decodePieces rest).map (units ++ ·)
      | _ => none
    else none

def decodeURIComponent (text : JsString) : Option JsString := (pieces text).bind decodePieces

/-- a malformed escape leaves the text as it is -/
def percentDecode (text : JsString) : JsString := (decodeURIComponent text).getD text

/-- the characters that `encodeURIComponent` does not escape -/
def uriUnescaped (c : Char) : Bool :=
  let n := c.toNat
  (0x41 ≤ n && n ≤ 0x5a) || (0x61 ≤ n && n ≤ 0x7a) || (0x30 ≤ n && n ≤ 0x39) || c ∈ "-_.!~*'()".toList

def hexDigit (n : ℕ) : UInt16 := if n < 10 then fromCharCode (0x30 + n) else fromCharCode (0x37 + n)

def escapeByte (b : ℕ) : JsString := [unit '%', hexDigit (b / 16), hexDigit (b % 16)]

def encodeURIComponent (s : List Char) : JsString :=
  s.flatMap fun c => if uriUnescaped c then [unit c] else (encodePoint c.toNat).flatMap escapeByte

/-! ## parseUrl -/

/-- one parameter of the query: only `plugin` counts, the last one wins -/
def queryParam (plugins : JsString × JsString) (param : JsString) : JsString × JsString :=
  match indexOf (unit '=') param with
  | some eq =>
    if 0 < eq ∧ param.take eq = js "plugin" then
      let decoded := percentDecode (param.drop (eq + 1))
      match indexOf (unit ';') decoded with
      | some semi => (decoded.take semi, decoded.drop (semi + 1))
      | none => (decoded, [])
    else plugins
  | none => plugins

/-- name of the fragment, and what stands before it -/
def splitFragment (body : JsString) : JsString × JsString :=
  match indexOf (unit '#') body with
  | some i => (percentDecode (body.drop (i + 1)), body.take i)
  | none => ([], body)

/-- plugin and options of the query, and what stands before it -/
def splitQuery (body : JsString) : (JsString × JsString) × JsString :=
  match indexOf (unit '?') body with
  | some i => (((body.drop (i + 1)).splitOn (unit '&')).foldl queryParam ([], []), body.take i)
  | none => (([], []), body)

/-- method and password -/
def splitUserInfo (userInfo : JsString) : Option (JsString × JsString) :=
  match indexOf (unit ':') userInfo with
  | some colon => some (userInfo.take colon, userInfo.drop (colon + 1))
  | none => none

/-- user info, still to be split, and host with port -/
def credentials (body : JsString) : Option (JsString × JsString) :=
  match lastIndexOf (unit '@') body with
  | some at_ => (decodeBase64 (body.take at_)).map fun userInfo => (userInfo, body.drop (at_ + 1))
  | none =>
    (decodeBase64 body).bind fun decoded =>
      (lastIndexOf (unit '@') decoded).map fun at_ => (decoded.take at_, decoded.drop (at_ + 1))

/-- `replace` of one character drops its first occurrence -/
def stripBrackets (host : JsString) : JsString := (host.erase (unit '[')).erase (unit ']')

/-- host and port -/
def splitHostPort (hostPort : JsString) : Option (JsString × ℤ) :=
  match lastIndexOf (unit ':') hostPort with
  | some portColon =>
    let host := stripBrackets (hostPort.take portColon)
    match parseInt (hostPort.drop (portColon + 1)) with
    | some port => if host = [] ∨ port ≤ 0 ∨ 65535 < port then none else some (host, port)
    | none => none
  | none => none

def parseUrl (url : JsString) : Option Profile :=
  let trimmed := jsTrim url
  if ¬ js "ss://" <+: trimmed then none
  else
    let (name, body) := splitFragment (trimmed.drop 5)
    let ((plugin, pluginOpts), body) := splitQuery body
    match credentials body with
    | none => none
    | some (userInfo, hostPort) =>
      match splitUserInfo userInfo with
      | none => none
      | some (method, password) =>
        match splitHostPort hostPort with
        | none => none
        | some (host, port) =>
          if method = [] ∨ password = [] then none
          else
            some {
              name := if name ≠ [] then name else host
              host := host
              remotePort := port
              method := method
              password := password
              plugin := plugin
              pluginOpts := pluginOpts }

end ShadowsocksOhos
