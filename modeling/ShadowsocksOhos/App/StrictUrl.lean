/-
What `Profile.parseUrl` takes for a host and a port. Its docstring says that it returns null when the text is not a valid
shadowsocks URL; but the port is read by a `parseInt` that is lenient at both ends, and each bracket is dropped for itself.

- `Spelled`: a host, a colon and a port, as a valid URL has them.
- `Loose`: what the code accepts, in its pieces.
- `splitHostPort_loose`: the code accepts nothing else.
- `sound_iff`: every URL that is accepted is spelled out, unless its host or its port is careless.
- `dialled`: a port with a blank in it.
-/
import ShadowsocksOhos.App.ProfileUrl

namespace ShadowsocksOhos

namespace StrictUrl

/-! ## Host and port -/

/-- a host, by itself or in one pair of brackets, a colon, and a port of decimal digits, with a `/` after it or none -/
structure Spelled (hostPort host : JsString) (port : ℤ) : Prop where
  text : ∃ written digits slash, hostPort = written ++ unit ':' :: (digits ++ slash) ∧
    (written = host ∨ written = unit '[' :: (host ++ [unit ']'])) ∧ digits ≠ [] ∧ (∀ u ∈ digits, isDigit u = true) ∧
    (slash = [] ∨ slash = [unit '/']) ∧ port = digitsValue digits
  host_ne : host ≠ []
  brackets : unit '[' ∉ host ∧ unit ']' ∉ host
  range : 1 ≤ port ∧ port ≤ 65535

/-- the text after the last `@`, once what stands in front of it has been read -/
def bodyOf (url : JsString) : JsString := (splitQuery (splitFragment ((jsTrim url).drop 5)).2).2

/-- what `parseUrl` returns has the host and the port that the URL spells out -/
def Sound (url : JsString) : Prop :=
  ∀ p, parseUrl url = some p → ∃ userInfo hostPort port, credentials (bodyOf url) = some (userInfo, hostPort) ∧
    p.remotePort = (port : ℤ) ∧ Spelled hostPort p.host port

/-! ### What is accepted -/

/-- the text in front of the last colon, and the pieces of the text after it -/
structure Loose (hostPort written spaces plus digits rest : JsString) : Prop where
  text : hostPort = written ++ unit ':' :: (spaces ++ (plus ++ (digits ++ rest)))
  colon : unit ':' ∉ rest
  blank : ∀ u ∈ spaces, isJsSpace u = true
  sign : plus = [] ∨ plus = [unit '+']
  digits_ne : digits ≠ []
  all_digits : ∀ u ∈ digits, isDigit u = true
  ends : ∀ u ∈ rest.head?, isDigit u = false
  range : 1 ≤ digitsValue digits ∧ digitsValue digits ≤ 65535
  host : stripBrackets written ≠ []

/-- no brackets, or one pair around everything else -/
def BracketsOk (written : JsString) : Prop :=
  ∃ host, (unit '[' ∉ host ∧ unit ']' ∉ host) ∧ (written = host ∨ written = unit '[' :: (host ++ [unit ']']))

/-- accepted, with white space or a sign in front of the port, with something else than one `/` after it, or with brackets
that are not one pair around the host -/
def Careless (hostPort : JsString) : Prop :=
  ∃ written spaces plus digits rest, Loose hostPort written spaces plus digits rest ∧
    (spaces ≠ [] ∨ plus ≠ [] ∨ (rest ≠ [] ∧ rest ≠ [unit '/']) ∨ ¬ BracketsOk written)

/-- a URL with user info in order, and a careless host or port -/
def CarelessUrl (url : JsString) : Prop :=
  js "ss://" <+: jsTrim url ∧ ∃ userInfo hostPort method password, credentials (bodyOf url) = some (userInfo, hostPort) ∧
    splitUserInfo userInfo = some (method, password) ∧ method ≠ [] ∧ password ≠ [] ∧ Careless hostPort

/-! ## The port -/

theorem colon_notMem_digits {digits : JsString} (h : ∀ u ∈ digits, isDigit u = true) : unit ':' ∉ digits := by
  intro hm
  have hcolon := h _ hm
  revert hcolon
  decide

/-- a run of digits goes on until no digit follows -/
theorem digits_end {digits rest : JsString} (hdigits : ∀ u ∈ digits, isDigit u = true)
    (hrest : ∀ u ∈ rest.head?, isDigit u = false) :
    (digits ++ rest).takeWhile isDigit = digits ∧ (digits ++ rest).dropWhile isDigit = rest := by
  rw [List.takeWhile_append_of_pos hdigits, List.dropWhile_append_of_pos hdigits]
  cases rest with
  | nil => exact ⟨by rw [List.takeWhile_nil, List.append_nil], rfl⟩
  | cons u rest =>
    have hu : ¬ isDigit u = true := by simpa using hrest u rfl
    rw [List.takeWhile_cons_of_neg hu, List.dropWhile_cons_of_neg hu, List.append_nil]
    exact ⟨rfl, rfl⟩

/-- what may follow the port is no digit, and has no colon -/
theorem slash_end {slash : JsString} (h : slash = [] ∨ slash = [unit '/']) :
    unit ':' ∉ slash ∧ ∀ u ∈ slash.head?, isDigit u = false := by
  rcases h with rfl | rfl
  · exact ⟨List.not_mem_nil, fun u hu => by cases hu⟩
  · exact ⟨by decide, fun u hu => by cases hu; decide⟩

/-- `parseInt` on white space, a sign and digits -/
theorem parseInt_loose {spaces plus digits rest : JsString} (hspaces : ∀ u ∈ spaces, isJsSpace u = true)
    (hplus : plus = [] ∨ plus = [unit '+']) (hne : digits ≠ []) (hdigits : ∀ u ∈ digits, isDigit u = true)
    (hrest : ∀ u ∈ rest.head?, isDigit u = false) :
    parseInt (spaces ++ (plus ++ (digits ++ rest))) = some (digitsValue digits : ℤ) := by
  have htake := (digits_end hdigits hrest).1
  obtain ⟨u, ds, rfl⟩ := List.exists_cons_of_ne_nil hne
  have hu := hdigits u List.mem_cons_self
  rcases hplus with rfl | rfl
  · have hdrop : (spaces ++ ([] ++ (u :: ds ++ rest))).dropWhile isJsSpace = u :: ds ++ rest := by
      rw [List.dropWhile_append_of_pos hspaces, List.nil_append, List.cons_append,
        List.dropWhile_cons_of_neg (by simp [isDigit_not_space hu])]
    have hparse := parseInt_digit hu (ds ++ rest)
    rw [← List.cons_append, htake] at hparse
    rw [← hparse]
    unfold parseInt
    rw [hdrop, List.cons_append, List.dropWhile_cons_of_neg (by simp [isDigit_not_space hu])]
  · have hdrop : (spaces ++ ([unit '+'] ++ (u :: ds ++ rest))).dropWhile isJsSpace = unit '+' :: (u :: ds ++ rest) := by
      rw [List.dropWhile_append_of_pos hspaces, List.singleton_append, List.dropWhile_cons_of_neg (by decide)]
    unfold parseInt
    rw [hdrop]
    simp only [if_neg (show unit '+' ≠ unit '-' by decide), if_true, htake, if_neg hne, one_mul]

/-- the pieces of a text that `parseInt` reads as a positive number -/
theorem loose_of_parseInt {t : JsString} {n : ℤ} (h : parseInt t = some n) (hpos : 1 ≤ n) :
    ∃ spaces plus digits rest, t = spaces ++ (plus ++ (digits ++ rest)) ∧ (∀ u ∈ spaces, isJsSpace u = true) ∧
      (plus = [] ∨ plus = [unit '+']) ∧ digits ≠ [] ∧ (∀ u ∈ digits, isDigit u = true) ∧
      (∀ u ∈ rest.head?, isDigit u = false) ∧ n = digitsValue digits := by
  have hread : ∀ s : JsString, s = s.takeWhile isDigit ++ s.dropWhile isDigit ∧
      (∀ u ∈ s.takeWhile isDigit, isDigit u = true) ∧ ∀ u ∈ (s.dropWhile isDigit).head?, isDigit u = false := by
    intro s
    refine ⟨(List.takeWhile_append_dropWhile).symm, fun u hu => List.mem_takeWhile_imp hu, fun u hu => ?_⟩
    have := List.head?_dropWhile_not isDigit s
    rw [Option.mem_def.1 hu] at this
    simpa using this
  have hsplit : t = t.takeWhile isJsSpace ++ t.dropWhile isJsSpace := List.takeWhile_append_dropWhile.symm
  have hspaces : ∀ u ∈ t.takeWhile isJsSpace, isJsSpace u = true := fun u hu => List.mem_takeWhile_imp hu
  unfold parseInt at h
  generalize t.dropWhile isJsSpace = s at h hsplit
  generalize t.takeWhile isJsSpace = spaces at hsplit hspaces
  rcases s with _ | ⟨u, s⟩
  · simp at h
  by_cases hminus : u = unit '-'
  · -- a negative number is no port
    simp only [if_pos hminus] at h
    split_ifs at h
    have hn := Option.some.inj h
    omega
  by_cases hplus : u = unit '+'
  · simp only [if_neg hminus, if_pos hplus] at h
    split_ifs at h with hne
    obtain ⟨hs, hall, hhead⟩ := hread s
    refine ⟨spaces, [unit '+'], _, _, ?_, hspaces, Or.inr rfl, hne, hall, hhead, ?_⟩
    · rw [← hs, hsplit, hplus, List.singleton_append]
    · rw [← Option.some.inj h, one_mul]
  · simp only [if_neg hminus, if_neg hplus] at h
    split_ifs at h with hne
    obtain ⟨hs, hall, hhead⟩ := hread (u :: s)
    refine ⟨spaces, [], _, _, ?_, hspaces, Or.inl rfl, hne, hall, hhead, ?_⟩
    · rw [← hs, hsplit, List.nil_append]
    · rw [← Option.some.inj h, one_mul]

/-! ## The last colon -/

theorem last_split {c : UInt16} {s : JsString} (h : c ∈ s) : ∃ a b, s = a ++ c :: b ∧ c ∉ b := by
  obtain ⟨b, a, hs, hb⟩ := List.eq_append_cons_of_mem (List.mem_reverse.2 h)
  refine ⟨a.reverse, b.reverse, ?_, by rwa [List.mem_reverse]⟩
  rw [← List.reverse_reverse s, hs, List.reverse_append, List.reverse_cons, List.append_assoc, List.singleton_append]

theorem last_split_unique {c : UInt16} {a a' b b' : JsString} (h : a ++ c :: b = a' ++ c :: b') (hb : c ∉ b) (hb' : c ∉ b') :
    a = a' ∧ b = b' := by
  have hlen : some a.length = some a'.length := by
    rw [← lastIndexOf_append hb a, h, lastIndexOf_append hb' a']
  obtain ⟨ha, hc⟩ := List.append_inj h (Option.some.inj hlen)
  exact ⟨ha, (List.cons.inj hc).2⟩

/-- there is no colon after the one in front of the port -/
theorem Loose.colon_notMem {hostPort written spaces plus digits rest : JsString}
    (h : Loose hostPort written spaces plus digits rest) : unit ':' ∉ spaces ++ (plus ++ (digits ++ rest)) := by
  simp only [List.mem_append, not_or]
  refine ⟨fun hm => ?_, fun hm => ?_, colon_notMem_digits h.all_digits, h.colon⟩
  · have hspace := h.blank _ hm
    revert hspace
    decide
  · rcases h.sign with hp | hp
    · rw [hp] at hm
      cases hm
    · rw [hp] at hm
      revert hm
      decide

/-- **What is accepted.** -/
theorem splitHostPort_loose {hostPort host : JsString} {port : ℤ} :
    splitHostPort hostPort = some (host, port) ↔ ∃ written spaces plus digits rest,
      Loose hostPort written spaces plus digits rest ∧ host = stripBrackets written ∧ port = digitsValue digits := by
  constructor
  · intro h
    by_cases hcolon : unit ':' ∈ hostPort
    · obtain ⟨written, t, rfl, ht⟩ := last_split hcolon
      unfold splitHostPort at h
      simp only [lastIndexOf_append ht, take_append_cons, drop_append_cons] at h
      split at h
      · rename_i n hn
        split_ifs at h with hbad
        cases h
        simp only [not_or, not_le, not_lt] at hbad
        obtain ⟨hne, hpos, hle⟩ := hbad
        obtain ⟨spaces, plus, digits, rest, rfl, hspaces, hplus, hdne, hdigits, hrest, rfl⟩ := loose_of_parseInt hn hpos
        refine ⟨written, spaces, plus, digits, rest, ⟨rfl, fun hm => ht ?_, hspaces, hplus, hdne, hdigits, hrest, ?_, hne⟩,
          rfl, rfl⟩
        · simp only [List.mem_append]
          exact Or.inr (Or.inr (Or.inr hm))
        · omega
      · cases h
    · unfold splitHostPort at h
      rw [lastIndexOf_none hcolon] at h
      cases h
  · rintro ⟨written, spaces, plus, digits, rest, hl, rfl, rfl⟩
    obtain ⟨hpos, hle⟩ := hl.range
    unfold splitHostPort
    rw [hl.text]
    simp only [lastIndexOf_append hl.colon_notMem, take_append_cons, drop_append_cons,
      parseInt_loose hl.blank hl.sign hl.digits_ne hl.all_digits hl.ends]
    rw [if_neg]
    rintro (h | h | h)
    · exact hl.host h
    · omega
    · omega

/-! ## What is spelled out -/

theorem stripBrackets_plain {host : JsString} (h : unit '[' ∉ host ∧ unit ']' ∉ host) : stripBrackets host = host := by
  unfold stripBrackets
  rw [List.erase_of_not_mem h.1, List.erase_of_not_mem h.2]

theorem stripBrackets_pair {host : JsString} (h : unit '[' ∉ host ∧ unit ']' ∉ host) :
    stripBrackets (unit '[' :: (host ++ [unit ']'])) = host := by
  unfold stripBrackets
  rw [List.erase_cons_head, List.erase_append_right _ h.2, List.erase_cons_head, List.append_nil]

variable {hostPort written spaces plus digits rest : JsString}

/-- with no more than the digits and one `/`, and with brackets in order, what is accepted is what is spelled out -/
theorem Loose.spelled (h : Loose hostPort written spaces plus digits rest) (hspaces : spaces = []) (hplus : plus = [])
    (hrest : rest = [] ∨ rest = [unit '/']) (hbrackets : BracketsOk written) :
    Spelled hostPort (stripBrackets written) (digitsValue digits) := by
  obtain ⟨host, hplain, hwritten⟩ := hbrackets
  have hhost : stripBrackets written = host := by
    rcases hwritten with rfl | rfl
    · exact stripBrackets_plain hplain
    · exact stripBrackets_pair hplain
  have hne := h.host
  have hrange := h.range
  have htext := h.text
  rw [hhost] at hne ⊢
  rw [hspaces, hplus, List.nil_append, List.nil_append] at htext
  exact ⟨⟨written, digits, rest, htext, hwritten, h.digits_ne, h.all_digits, hrest, rfl⟩, hne, hplain, by omega⟩

/-- what is spelled out has a port that begins with a digit, and its brackets are in order -/
theorem Loose.of_spelled (h : Loose hostPort written spaces plus digits rest) {host : JsString} {port : ℤ}
    (hs : Spelled hostPort host port) :
    spaces = [] ∧ plus = [] ∧ (rest = [] ∨ rest = [unit '/']) ∧ BracketsOk written := by
  obtain ⟨written', digits', slash, htext, hwritten, hne, hdigits, hslash, -⟩ := hs.text
  obtain ⟨hcolon, hends⟩ := slash_end hslash
  have hport_colon : unit ':' ∉ digits' ++ slash := by
    rw [List.mem_append, not_or]
    exact ⟨colon_notMem_digits hdigits, hcolon⟩
  obtain ⟨rfl, hport⟩ := last_split_unique (h.text.symm.trans htext) h.colon_notMem hport_colon
  obtain ⟨d, ds, rfl⟩ := List.exists_cons_of_ne_nil hne
  have hd := hdigits d List.mem_cons_self
  have hspaces : spaces = [] := by
    rcases hcase : spaces with _ | ⟨u, us⟩
    · rfl
    · rw [hcase] at hport
      obtain ⟨rfl, -⟩ := List.cons.inj hport
      have hu := h.blank u (by rw [hcase]; exact List.mem_cons_self)
      rw [isDigit_not_space hd] at hu
      cases hu
  rw [hspaces, List.nil_append] at hport
  have hplus : plus = [] := by
    rcases h.sign with hp | hp
    · exact hp
    · rw [hp] at hport
      obtain ⟨rfl, -⟩ := List.cons.inj hport
      exact absurd hd (by decide)
  rw [hplus, List.nil_append] at hport
  have hrest : rest = slash := by
    rw [← (digits_end h.all_digits h.ends).2, hport, (digits_end hdigits hends).2]
  exact ⟨hspaces, hplus, hrest ▸ hslash, host, hs.brackets, hwritten⟩

/-! ## URLs -/

/-- what `parseUrl` needs and what it returns -/
theorem parseUrl_parts {url : JsString} {p : Profile} (h : parseUrl url = some p) :
    js "ss://" <+: jsTrim url ∧ ∃ userInfo hostPort method password port,
      credentials (bodyOf url) = some (userInfo, hostPort) ∧ splitUserInfo userInfo = some (method, password) ∧
      method ≠ [] ∧ password ≠ [] ∧ splitHostPort hostPort = some (p.host, port) ∧ p.remotePort = (port : ℤ) := by
  simp only [parseUrl] at h
  split at h
  · cases h
  rename_i hstart
  split at h
  · cases h
  rename_i userInfo hostPort hcreds
  split at h
  · cases h
  rename_i method password huser
  split at h
  · cases h
  rename_i host port hhost
  split at h
  · cases h
  rename_i hempty
  cases h
  rw [not_or] at hempty
  exact ⟨not_not.1 hstart, userInfo, hostPort, method, password, port, hcreds, huser, hempty.1, hempty.2, hhost, rfl⟩

theorem parseUrl_of_parts {url userInfo hostPort method password host : JsString} {port : ℤ}
    (hstart : js "ss://" <+: jsTrim url) (hcreds : credentials (bodyOf url) = some (userInfo, hostPort))
    (huser : splitUserInfo userInfo = some (method, password)) (hmethod : method ≠ []) (hpassword : password ≠ [])
    (hhost : splitHostPort hostPort = some (host, port)) :
    ∃ p, parseUrl url = some p ∧ p.host = host ∧ p.remotePort = (port : ℤ) := by
  unfold bodyOf at hcreds
  unfold parseUrl
  simp only [hcreds, huser, hhost]
  rw [if_neg (not_not.2 hstart), if_neg (not_or.2 ⟨hmethod, hpassword⟩)]
  exact ⟨_, rfl, rfl, rfl⟩

/-- **When only valid URLs are accepted.** Whatever `parseUrl` returns for a text has the host and the port that the text
spells out, and a text that spells out none gives null, if and only if it is no careless URL. -/
theorem sound_iff (url : JsString) : Sound url ↔ ¬ CarelessUrl url := by
  constructor
  · rintro hsound ⟨hstart, userInfo, hostPort, method, password, hcreds, huser, hmethod, hpassword, hcareless⟩
    obtain ⟨written, spaces, plus, digits, rest, hl, hbad⟩ := hcareless
    have hhost := splitHostPort_loose.2 ⟨written, spaces, plus, digits, rest, hl, rfl, rfl⟩
    obtain ⟨p, hp, -, -⟩ := parseUrl_of_parts hstart hcreds huser hmethod hpassword hhost
    obtain ⟨userInfo', hostPort', port, hcreds', -, hspelled⟩ := hsound p hp
    obtain ⟨-, rfl⟩ := Prod.mk.inj (Option.some.inj (hcreds.symm.trans hcreds'))
    obtain ⟨hspaces, hplus, hrest, hbrackets⟩ := hl.of_spelled hspelled
    rcases hbad with hbad | hbad | ⟨hnil, hslash⟩ | hbad
    · exact hbad hspaces
    · exact hbad hplus
    · exact hrest.elim hnil hslash
    · exact hbad hbrackets
  · intro hok p hp
    obtain ⟨hstart, userInfo, hostPort, method, password, port, hcreds, huser, hmethod, hpassword, hhost, hport⟩ :=
      parseUrl_parts hp
    obtain ⟨written, spaces, plus, digits, rest, hl, hwritten, rfl⟩ := splitHostPort_loose.1 hhost
    refine ⟨userInfo, hostPort, _, hcreds, hport, ?_⟩
    have hgood : ¬ (spaces ≠ [] ∨ plus ≠ [] ∨ (rest ≠ [] ∧ rest ≠ [unit '/']) ∨ ¬ BracketsOk written) := fun hbad =>
      hok ⟨hstart, userInfo, hostPort, method, password, hcreds, huser, hmethod, hpassword, written, spaces, plus, digits,
        rest, hl, hbad⟩
    simp only [not_or, not_and_or, not_not] at hgood
    obtain ⟨hspaces, hplus, hrest, hbrackets⟩ := hgood
    rw [hwritten]
    exact hl.spelled hspaces hplus hrest hbrackets

/-- **Dialled.** `ss://bTpw@h:83 88`, with a blank in the port, gives the method `m`, the password `p` and the port 83. -/
theorem dialled : ¬ ∀ url, Sound url := by
  intro h
  have hurl := (sound_iff (js "ss://bTpw@h:83 88")).1 (h _)
  apply hurl
  refine ⟨by decide, js "m:p", js "h:83 88", js "m", js "p", by decide, by decide, by decide, by decide, js "h", [], [],
    js "83", js " 88", ?_, ?_⟩
  · exact ⟨by decide, by decide, fun u hu => absurd hu List.not_mem_nil, Or.inl rfl, by decide,
      forall_mem_of_all (by decide), fun u hu => by cases hu; decide, by decide, by decide⟩
  · exact Or.inr (Or.inr (Or.inl ⟨by decide, by decide⟩))

end StrictUrl

end ShadowsocksOhos
