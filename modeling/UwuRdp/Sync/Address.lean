import UwuRdp.Lib.Endings
import UwuRdp.Sync.Spaces

/-!
# Server addresses

What someone types as a server becomes an address that accounts are kept under and sessions go back to. It is read
by a URL library, the pages of the web vault are cut off its path, and it has to be one a secret may be sent to. The
callers make an address of what was made one already.
-/

namespace UwuRdp

open Lib

/-! ## The URL library -/

inductive UrlHost where
  | domain (name : Text)
  | ipv4 (a b c d : UInt8)
  | ipv6 (segments : Vector UInt16 8)
deriving DecidableEq

/-- `is_loopback`, and `localhost` for a name. -/
def UrlHost.isLocal : UrlHost → Bool
  | domain name => Text.toAsciiLowercase name = "localhost".toList
  | ipv4 a _ _ _ => a = 127
  | ipv6 segments => segments = #v[0, 0, 0, 0, 0, 0, 0, 1]

/-- What the library makes of a text, and what it can be asked and told. -/
class UrlLibrary where
  Url : Type
  parse : Text → Option Url
  asStr : Url → Text
  scheme : Url → Text
  username : Url → Text
  password : Url → Option Text
  host : Url → Option UrlHost
  path : Url → Text
  query : Url → Option Text
  fragment : Url → Option Text
  setPath : Url → Text → Url
  setQuery : Url → Option Text → Url
  setFragment : Url → Option Text → Url
  /-- `url[..Position::BeforePath]` -/
  beforePath : Url → Text

namespace UrlLibrary

variable [UrlLibrary]

def Web (u : Url) : Prop := scheme u = "https".toList ∨ scheme u = "http".toList

/-- What the library says of itself, for addresses of the web mostly: they have an authority and a path, are written
without white space, and are read back from what they are written as. -/
structure Documented : Prop where
  parse_asStr : ∀ u : Url, parse (asStr u) = some u
  asStr_scheme : ∀ u : Url, ∃ rest, asStr u = scheme u ++ ':' :: rest
  parse_scheme : ∀ (u v : Url) rest, parse (scheme u ++ ':' :: rest) = some v → scheme v = scheme u
  scheme_setPath : ∀ (u : Url) p, scheme (setPath u p) = scheme u
  scheme_setQuery : ∀ u : Url, scheme (setQuery u none) = scheme u
  scheme_setFragment : ∀ u : Url, scheme (setFragment u none) = scheme u
  unspaced : ∀ u : Url, Web u → ∀ c ∈ asStr u, Text.isWhitespace c = false
  authority : ∀ u : Url, Web u → ∃ a, beforePath u = scheme u ++ "://".toList ++ a ∧ a ≠ [] ∧ '/' ∉ a
  asStr_eq : ∀ u : Url, Web u → query u = none → fragment u = none → asStr u = beforePath u ++ path u
  /-- Without a path it is the one of the root. -/
  parse_beforePath : ∀ u : Url, Web u → query u = none → fragment u = none →
    parse (beforePath u) = some (setPath u [])
  kept_setFragment : ∀ u : Url, Web u → path (setFragment u none) = path u ∧
    beforePath (setFragment u none) = beforePath u ∧ fragment (setFragment u none) = none
  kept_setQuery : ∀ u : Url, Web u → path (setQuery u none) = path u ∧ beforePath (setQuery u none) = beforePath u ∧
    fragment (setQuery u none) = fragment u ∧ query (setQuery u none) = none
  kept_setPath : ∀ (u : Url) p, Web u → beforePath (setPath u p) = beforePath u ∧ query (setPath u p) = query u ∧
    fragment (setPath u p) = fragment u
  /-- Whole segments of a path are a path as they are. -/
  path_setPath : ∀ (u : Url) p rest, Web u → path u = p ++ rest → (rest = [] ∨ ∃ r, rest = '/' :: r) →
    path (setPath u p) = if p = [] then ['/'] else p

end UrlLibrary

/-! ## Addresses -/

section Address

variable [UrlLibrary]

/-- Whether this is an address a secret may be sent to. Plain HTTP reaches no further than this machine. -/
def safeAddress (base : Text) : Bool :=
  match UrlLibrary.parse base with
  | none => false
  | some url =>
    if UrlLibrary.username url ≠ [] ∨ (UrlLibrary.password url).isSome ∨ (UrlLibrary.query url).isSome ∨
        (UrlLibrary.fragment url).isSome then false
    else
      match UrlLibrary.host url with
      | none => false
      | some host =>
        if UrlLibrary.scheme url = "https".toList then true
        else if UrlLibrary.scheme url = "http".toList then host.isLocal
        else false

/-- The pages of the web vault, in the order they are cut off. -/
def tails : List Text := ["/api".toList, "/identity".toList, "/vault".toList, "/login".toList, "/#".toList]

def typed (input : Text) : Text :=
  if "://".toList <:+: input.trim then input.trim else "https://".toList ++ input.trim

/-- `str::trim_end_matches('/')` -/
def trimSlashes (t : Text) : Text := Text.trimEndMatches (· == '/') t

/-- A server address from what someone typed: the web vault's address, with or without `https://`, with or without a
path of the web vault behind it. A refusal is by its text. -/
def normalizeServer (input : Text) : Except Text Text :=
  if input.trim = [] then .error "the server address is empty".toList
  else
    match UrlLibrary.parse (typed input) with
    | none => .error ("“".toList ++ input.trim ++ "” is no address".toList)
    | some url =>
      let url := UrlLibrary.setQuery (UrlLibrary.setFragment url none) none
      let path := Endings.cutAll tails (trimSlashes (UrlLibrary.path url))
      let base := trimSlashes (UrlLibrary.asStr (UrlLibrary.setPath url path))
      if safeAddress base then .ok base
      else .error "a UwULock Server must be reached over https (localhost may use http)".toList

/-! ## Who asks with it -/

structure LockDevice where
  identifier : Uuid
  name : Text
  kind : ℕ
deriving DecidableEq

/-- One UwULock Server, as this device talks to it. -/
structure LockClient where
  base : Text
  /-- A server on this machine is not asked through a proxy. -/
  noProxy : Bool
  device : LockDevice
  space : Option Uuid
deriving DecidableEq

inductive ConnectError where
  | refused (message : Text)
  | unreachable (message : Text)
deriving DecidableEq

/-- `Lock::connect`; `build` is how the client comes out, with or without a proxy. -/
def connect (build : Bool → Except Text Unit) (server : Text) (device : LockDevice) :
    Except ConnectError LockClient :=
  match normalizeServer server with
  | .error message => .error (.refused message)
  | .ok base =>
    let noProxy := "http://".toList.isPrefixOf base
    match build noProxy with
    | .error message => .error (.unreachable message)
    | .ok () => .ok ⟨base, noProxy, device, none⟩

/-- The client library, with addresses read here. -/
@[reducible]
def LockCore.withServers (core : LockCore) : LockCore :=
  { core with normalizeServer := fun input => (UwuRdp.normalizeServer input).toOption }

/-- What the operating system says to a sealed token. -/
inductive Unsealing where
  /-- It opens, to a text or to bytes that are none. -/
  | opened (text : Option Text)
  | neverOpens
  /-- It cannot tell right now. -/
  | failed
deriving DecidableEq

inductive TokenStatement where
  | read
  | forget
deriving DecidableEq

abbrev TokenCall := Act LockStore StoreError (Option Text)

/-- A token that is kept, opened. One that does not open for this user is dropped. -/
def openToken (sealed : Option (Protected Text)) (unprotect : Protected Text → Unsealing) (forget : LockCall) :
    TokenCall :=
  match sealed with
  | none => pure none
  | some sealed =>
    match unprotect sealed with
    | .opened (some text) => pure (some text)
    | .failed => Act.fail .device
    | .opened none | .neverOpens => do
      forget
      pure none

/-- `lock_remember_token`: the one this server issued for this email, and only that one. -/
def lockRememberToken [Platform] (fault : TokenStatement → Bool) (serverUrl email : Text)
    (unprotect : Protected Text → Unsealing) : TokenCall := do
  let email := accountEmail email
  if fault .read then Act.fail .sqlite
  else
    let s ← Act.get
    openToken (s.account (serverUrl, email)).protectedRememberToken unprotect
      (if fault .forget then Act.fail .sqlite
      else Act.modify (LockStore.onAccount (serverUrl, accountEmail email) fun r =>
        { r with protectedRememberToken := none }))

/-- The token this device holds for the account of this server and email. None for an address that is none. -/
def rememberToken [Platform] (fault : TokenStatement → Bool) (serverUrl email : Text)
    (unprotect : Protected Text → Unsealing) : TokenCall :=
  match normalizeServer serverUrl with
  | .error _ => pure none
  | .ok server => lockRememberToken fault server email unprotect

end Address

/-! ## What an address is made of -/

section Made

theorem tails_nodup : tails.Nodup := by decide

theorem tails_marked : ∀ e ∈ tails, Endings.Marked '/' e := by
  simp only [tails, List.forall_mem_cons, List.not_mem_nil, false_imp_iff, implies_true, and_true]
  exact ⟨⟨_, rfl, by decide, by decide⟩, ⟨_, rfl, by decide, by decide⟩, ⟨_, rfl, by decide, by decide⟩,
    ⟨_, rfl, by decide, by decide⟩, ⟨_, rfl, by decide, by decide⟩⟩

variable [UrlLibrary]

open UrlLibrary

def baseOf (url : Url) : Text := beforePath url ++ Endings.rest '/' tails (path url)

variable {u : Url} {base s : Text}

theorem web_congr {v : Url} (h : scheme v = scheme u) : Web v ↔ Web u := by
  rw [Web, Web, h]

def Secure (base : Text) : Prop :=
  ∃ u, parse base = some u ∧
    (scheme u = "https".toList ∨ scheme u = "http".toList ∧ ∃ host, UrlLibrary.host u = some host ∧ host.isLocal = true)

theorem secure_of_safeAddress (h : safeAddress base = true) : Secure base := by
  unfold safeAddress at h
  split at h
  · cases h
  · next u hparse =>
    refine ⟨u, hparse, ?_⟩
    split at h
    · cases h
    split at h
    · cases h
    · next host hhost =>
      split at h
      · next hhttps => exact .inl hhttps
      · split at h
        · next hhttp => exact .inr ⟨hhttp, host, hhost, h⟩
        · cases h

theorem web_of_safeAddress (h : safeAddress base = true) : ∃ u, parse base = some u ∧ Web u := by
  obtain ⟨u, hparse, hscheme⟩ := secure_of_safeAddress h
  exact ⟨u, hparse, hscheme.imp_right And.left⟩

variable (hurl : UrlLibrary.Documented)

include hurl

theorem cleared (hweb : Web u) :
    Web (setQuery (setFragment u none) none) ∧ query (setQuery (setFragment u none) none) = none ∧
      fragment (setQuery (setFragment u none) none) = none ∧ path (setQuery (setFragment u none) none) = path u ∧
      beforePath (setQuery (setFragment u none) none) = beforePath u := by
  obtain ⟨hpath, hbefore, hfragment⟩ := hurl.kept_setFragment u hweb
  have hweb' : Web (setFragment u none) := (web_congr (hurl.scheme_setFragment u)).mpr hweb
  obtain ⟨hpath', hbefore', hfragment', hquery'⟩ := hurl.kept_setQuery _ hweb'
  exact ⟨(web_congr (hurl.scheme_setQuery _)).mpr hweb', hquery', hfragment'.trans hfragment, hpath'.trans hpath,
    hbefore'.trans hbefore⟩

theorem trimSlashes_beforePath (hweb : Web u) (t : Text) :
    trimSlashes (beforePath u ++ t) = beforePath u ++ Endings.trim '/' t := by
  obtain ⟨a, ha, hne, hslash⟩ := hurl.authority u hweb
  have hbefore : beforePath u ≠ [] := by
    rw [ha]
    simp
  refine Endings.trim_append (List.rdropWhile_eq_self_iff.mpr fun hl => ?_) hbefore t
  simp only [ha, List.getLast_append_of_ne_nil _ hne, beq_iff_eq]
  exact fun hlast => hslash (hlast ▸ List.getLast_mem hne)

theorem path_rest (hweb : Web u) :
    path (setPath u (Endings.rest '/' tails (path u))) =
      if Endings.rest '/' tails (path u) = [] then ['/'] else Endings.rest '/' tails (path u) := by
  obtain ⟨r, hr, hmark⟩ := Endings.exists_rest tails_marked (path u)
  exact hurl.path_setPath u _ r hweb hr hmark

theorem asStr_setPath (hweb : Web u) (hquery : query u = none) (hfragment : fragment u = none) (p : Text) :
    asStr (setPath u p) = beforePath u ++ path (setPath u p) := by
  obtain ⟨hbefore, hquery', hfragment'⟩ := hurl.kept_setPath u p hweb
  rw [hurl.asStr_eq _ ((web_congr (hurl.scheme_setPath u p)).mpr hweb) (hquery'.trans hquery)
    (hfragment'.trans hfragment), hbefore]

theorem trimSlashes_asStr (hweb : Web u) (hquery : query u = none) (hfragment : fragment u = none) :
    trimSlashes (asStr (setPath u (Endings.cutAll tails (trimSlashes (path u))))) = baseOf u := by
  obtain ⟨r, hr, hmark⟩ := Endings.exists_cutAll_trim tails_marked (path u)
  have hpath := hurl.path_setPath u _ r hweb hr hmark
  rw [show trimSlashes (path u) = Endings.trim '/' (path u) from rfl, asStr_setPath hurl hweb hquery hfragment, hpath,
    trimSlashes_beforePath hurl hweb, baseOf, Endings.rest]
  split
  · next hnil =>
    rw [hnil]
    rfl
  · rfl

theorem parse_baseOf (hweb : Web u) : ∃ v, parse (baseOf u) = some v ∧ Web v ∧
    (∀ c ∈ baseOf u, Text.isWhitespace c = false) ∧ baseOf v = beforePath u ++ Endings.rest '/' tails
    (Endings.rest '/' tails (path u)) := by
  obtain ⟨hweb, hquery, hfragment, hpath, hbefore⟩ := cleared hurl hweb
  rw [show baseOf u = baseOf (setQuery (setFragment u none) none) by rw [baseOf, baseOf, hpath, hbefore], ← hpath,
    ← hbefore]
  generalize setQuery (setFragment u none) none = u at hweb hquery hfragment
  set q := Endings.rest '/' tails (path u) with hq
  have hweb' : Web (setPath u q) := (web_congr (hurl.scheme_setPath u q)).mpr hweb
  have hpath : path (setPath u q) = if q = [] then ['/'] else q := path_rest hurl hweb
  have hstr := asStr_setPath hurl hweb hquery hfragment q
  have hunspaced := hurl.unspaced _ hweb'
  refine ⟨setPath u q, ?_, hweb', ?_, ?_⟩
  · rw [baseOf, ← hq]
    by_cases hnil : q = []
    · rw [hnil, List.append_nil]
      exact hurl.parse_beforePath u hweb hquery hfragment
    · rw [hpath, if_neg hnil] at hstr
      rw [← hstr, hurl.parse_asStr]
  · intro c hc
    refine hunspaced c ?_
    rw [hstr, hpath]
    rw [baseOf, ← hq] at hc
    split
    · next hnil =>
      rw [hnil, List.append_nil] at hc
      exact List.mem_append_left _ hc
    · exact hc
  · rw [baseOf, (hurl.kept_setPath u q hweb).1, hpath]
    split
    · next hnil => rw [hnil, ← Endings.rest_append_replicate tails [] 1]; rfl
    · rfl

theorem normalizeServer_of_web (hne : s.trim ≠ []) (hparse : parse (typed s) = some u)
    (hweb : Web u) : normalizeServer s =
      if safeAddress (baseOf u) then .ok (baseOf u)
      else .error "a UwULock Server must be reached over https (localhost may use http)".toList := by
  obtain ⟨hweb', hquery, hfragment, hpath, hbefore⟩ := cleared hurl hweb
  have hbase : baseOf (setQuery (setFragment u none) none) = baseOf u := by
    rw [baseOf, baseOf, hpath, hbefore]
  rw [normalizeServer, if_neg hne, hparse]
  dsimp only
  rw [trimSlashes_asStr hurl hweb' hquery hfragment, hbase]

theorem scheme_of_parse {v : Url} (h : parse (trimSlashes (asStr u)) = some v) : scheme v = scheme u := by
  obtain ⟨rest, hrest⟩ := hurl.asStr_scheme u
  have hcolon : Endings.trim '/' (scheme u ++ [':']) = scheme u ++ [':'] := Endings.trim_concat_ne (by decide) _
  rw [hrest, List.append_cons, show trimSlashes (scheme u ++ [':'] ++ rest) = _ from
    Endings.trim_append hcolon (by simp) rest, List.append_assoc] at h
  exact hurl.parse_scheme u v _ h

theorem web_of_normalizeServer (h : normalizeServer s = .ok base) :
    ∃ u, s.trim ≠ [] ∧ parse (typed s) = some u ∧ Web u ∧ safeAddress base = true ∧ base = baseOf u := by
  have hne : s.trim ≠ [] := by
    intro hnil
    rw [normalizeServer, if_pos hnil] at h
    cases h
  rcases hparse : parse (typed s) with _ | u
  · rw [normalizeServer, if_neg hne, hparse] at h
    cases h
  have hweb : Web u := by
    rw [normalizeServer, if_neg hne, hparse] at h
    dsimp only at h
    split at h
    · next hsafe =>
      obtain ⟨v, hv, hscheme⟩ := web_of_safeAddress hsafe
      refine (web_congr ?_).mp hscheme
      rw [scheme_of_parse hurl hv, hurl.scheme_setPath, hurl.scheme_setQuery, hurl.scheme_setFragment]
    · cases h
  rw [normalizeServer_of_web hurl hne hparse hweb] at h
  split at h
  · next hsafe =>
    cases h
    exact ⟨u, hne, rfl, hweb, hsafe, rfl⟩
  · cases h

theorem normalizeServer_again (h : normalizeServer s = .ok base) : normalizeServer base = .ok base ↔ ∃ u, parse
    (typed s) = some u ∧ Endings.Once '/' tails (path u) := by
  obtain ⟨u, hne, hparse, hweb, hsafe, rfl⟩ := web_of_normalizeServer hurl h
  obtain ⟨v, hv, hweb', hunspaced, hbase⟩ := parse_baseOf hurl hweb
  obtain ⟨a, ha, hne', -⟩ := hurl.authority u hweb
  have htrim : (baseOf u).trim = baseOf u := Text.trim_of_unspaced hunspaced
  have hscheme : "://".toList <:+: baseOf u := by
    rw [baseOf, ha]
    exact ⟨scheme u, a ++ Endings.rest '/' tails (path u), by simp only [List.append_assoc]⟩
  have htyped : typed (baseOf u) = baseOf u := by
    rw [typed, htrim, if_pos hscheme]
  have hne'' : (baseOf u).trim ≠ [] := by
    rw [htrim, baseOf, ha]
    simp
  rw [normalizeServer_of_web hurl hne'' (htyped.symm ▸ hv) hweb', hparse]
  have hsame : baseOf v = baseOf u ↔ Endings.Once '/' tails (path u) := by
    rw [hbase, baseOf, List.append_cancel_left_eq, Endings.rest_rest_iff tails_nodup tails_marked]
  constructor
  · intro hagain
    refine ⟨u, rfl, hsame.mp ?_⟩
    split at hagain
    · exact Except.ok.inj hagain
    · cases hagain
  · rintro ⟨u', hu, honce⟩
    cases hu
    rw [hsame.mpr honce, if_pos hsafe]

end Made

/-! ## A library for plain addresses -/

section Plain

/-- An address of names in small letters. -/
structure PlainUrl where
  secure : Bool
  host : { t : Text // t ≠ [] ∧ ∀ c ∈ t, ('a' ≤ c ∧ c ≤ 'z') ∨ c = '.' }
  path : { t : Text // ∃ r, t = '/' :: r ∧ ∀ c ∈ r, ('a' ≤ c ∧ c ≤ 'z') ∨ c = '/' }

def PlainUrl.scheme (u : PlainUrl) : Text := if u.secure then "https".toList else "http".toList

def PlainUrl.beforePath (u : PlainUrl) : Text := u.scheme ++ "://".toList ++ u.host

def PlainUrl.asStr (u : PlainUrl) : Text := u.beforePath ++ u.path

def PlainUrl.root : { t : Text // ∃ r, t = '/' :: r ∧ ∀ c ∈ r, ('a' ≤ c ∧ c ≤ 'z') ∨ c = '/' } :=
  ⟨['/'], [], rfl, fun _ h => absurd h List.not_mem_nil⟩

def PlainUrl.readPath : (t : Text) →
    Option { t : Text // ∃ r, t = '/' :: r ∧ ∀ c ∈ r, ('a' ≤ c ∧ c ≤ 'z') ∨ c = '/' }
  | [] => some root
  | c :: r =>
    if h : c = '/' ∧ ∀ c ∈ r, ('a' ≤ c ∧ c ≤ 'z') ∨ c = '/' then some ⟨c :: r, r, by rw [h.1], h.2⟩ else none

def PlainUrl.isHostChar (c : Char) : Bool := ('a' ≤ c ∧ c ≤ 'z') ∨ c = '.'

def PlainUrl.readHost (secure : Bool) (t : Text) : Option PlainUrl :=
  if h : t.takeWhile isHostChar = [] then none
  else
    (readPath (t.dropWhile isHostChar)).map fun path =>
      ⟨secure, ⟨t.takeWhile isHostChar, h, fun c hc => by simpa [isHostChar] using List.mem_takeWhile_imp hc⟩, path⟩

def PlainUrl.parse : Text → Option PlainUrl
  | 'h' :: 't' :: 't' :: 'p' :: ':' :: '/' :: '/' :: t => readHost false t
  | 'h' :: 't' :: 't' :: 'p' :: 's' :: ':' :: '/' :: '/' :: t => readHost true t
  | _ => none

@[reducible]
def plainUrls : UrlLibrary where
  Url := PlainUrl
  parse := PlainUrl.parse
  asStr := PlainUrl.asStr
  scheme := PlainUrl.scheme
  username _ := []
  password _ := none
  host u := some (.domain u.host)
  path u := u.path
  query _ := none
  fragment _ := none
  setPath u t := { u with path := (PlainUrl.readPath t).getD u.path }
  setQuery u _ := u
  setFragment u _ := u
  beforePath := PlainUrl.beforePath

namespace PlainUrl

theorem parse_written (u : PlainUrl) (t : Text) : parse (u.scheme ++ "://".toList ++ t) = readHost u.secure t := by
  unfold scheme
  cases u.secure <;> rfl

theorem secure_of_readHost {secure : Bool} {t : Text} {u : PlainUrl} (h : readHost secure t = some u) :
    u.secure = secure := by
  unfold readHost at h
  split at h
  · cases h
  · obtain ⟨path, -, rfl⟩ := Option.map_eq_some_iff.mp h
    rfl

theorem scheme_of_parse {u v : PlainUrl} {rest : Text} (h : parse (u.scheme ++ ':' :: rest) = some v) :
    v.scheme = u.scheme := by
  unfold scheme at h ⊢
  rcases hsecure : u.secure with _ | _
  all_goals
    simp only [hsecure, Bool.false_eq_true, if_true, if_false] at h ⊢
    unfold parse at h
    split at h
  · rw [secure_of_readHost h]
    rfl
  · next heq => simp at heq
  · cases h
  · next heq => simp at heq
  · rw [secure_of_readHost h]
    rfl
  · cases h

theorem isHostChar_iff {c : Char} : isHostChar c = true ↔ ('a' ≤ c ∧ c ≤ 'z') ∨ c = '.' := by
  simp [isHostChar]

theorem readPath_self (t : { t : Text // ∃ r, t = '/' :: r ∧ ∀ c ∈ r, ('a' ≤ c ∧ c ≤ 'z') ∨ c = '/' }) :
    readPath t = some t := by
  obtain ⟨t, r, rfl, h⟩ := t
  exact dif_pos ⟨rfl, h⟩

theorem readHost_append (u : PlainUrl) {t : Text} (ht : t = [] ∨ ∃ r, t = '/' :: r) :
    readHost u.secure (u.host ++ t) = (readPath t).map fun path => { u with path := path } := by
  have hall : ∀ c ∈ u.host.1, isHostChar c = true := fun c hc => isHostChar_iff.mpr (u.host.2.2 c hc)
  have hstop : t.takeWhile isHostChar = [] ∧ t.dropWhile isHostChar = t := by
    rcases ht with rfl | ⟨r, rfl⟩
    · exact ⟨rfl, rfl⟩
    · exact ⟨List.takeWhile_cons_of_neg (by decide), List.dropWhile_cons_of_neg (by decide)⟩
  have htake : (u.host.1 ++ t).takeWhile isHostChar = u.host := by
    rw [List.takeWhile_append_of_pos hall, hstop.1, List.append_nil]
  have hdrop : (u.host.1 ++ t).dropWhile isHostChar = t := by
    rw [List.dropWhile_append_of_pos hall, hstop.2]
  unfold readHost
  simp only [htake, hdrop, u.host.2.1, dif_neg, not_false_iff, Subtype.coe_eta]

theorem unspaced_of_small {c : Char} (h : 'a' ≤ c ∧ c ≤ 'z') : Text.isWhitespace c = false := by
  have hlow : 97 ≤ c.toNat := h.1
  have hhigh : c.toNat ≤ 122 := h.2
  simp only [Text.isWhitespace, Bool.or_eq_false_iff, Bool.and_eq_false_iff, decide_eq_false_iff_not, beq_eq_false_iff_ne]
  omega

theorem documented : @UrlLibrary.Documented plainUrls := by
  let _ := plainUrls
  refine {
    parse_asStr := fun u => ?_
    asStr_scheme := fun u => ⟨"//".toList ++ u.host ++ u.path, ?_⟩
    parse_scheme := fun u v rest h => scheme_of_parse h
    scheme_setPath := fun _ _ => rfl
    scheme_setQuery := fun _ => rfl
    scheme_setFragment := fun _ => rfl
    unspaced := fun u _ c hc => ?_
    authority := fun u _ => ⟨u.host, rfl, u.host.2.1, ?_⟩
    asStr_eq := fun _ _ _ _ => rfl
    parse_beforePath := fun u _ _ _ => ?_
    kept_setFragment := fun _ _ => ⟨rfl, rfl, rfl⟩
    kept_setQuery := fun _ _ => ⟨rfl, rfl, rfl, rfl⟩
    kept_setPath := fun _ _ _ => ⟨rfl, rfl, rfl⟩
    path_setPath := fun u p rest _ hp hrest => ?_ }
  · obtain ⟨r, hr, -⟩ := u.path.2
    show parse (u.scheme ++ "://".toList ++ u.host ++ u.path) = some u
    rw [List.append_assoc _ u.host.1, parse_written, readHost_append u (.inr ⟨r, hr⟩), readPath_self]
    rfl
  · show u.scheme ++ "://".toList ++ u.host ++ u.path = _
    simp only [List.append_assoc]
    rfl
  · have hscheme : ∀ c ∈ u.scheme ++ "://".toList, Text.isWhitespace c = false := by
      unfold scheme
      cases u.secure <;> decide
    rcases List.mem_append.mp hc with hc | hc
    · rcases List.mem_append.mp hc with hc | hc
      · exact hscheme c hc
      · rcases u.host.2.2 c hc with hsmall | rfl
        · exact unspaced_of_small hsmall
        · decide
    · obtain ⟨r, hr, hchars⟩ := u.path.2
      rw [hr] at hc
      rcases List.mem_cons.mp hc with rfl | hc
      · decide
      · rcases hchars c hc with hsmall | rfl
        · exact unspaced_of_small hsmall
        · decide
  · intro hslash
    rcases u.host.2.2 '/' hslash with h | h
    · exact absurd h (by decide)
    · cases h
  · show parse (u.scheme ++ "://".toList ++ u.host) = some { u with path := root }
    rw [parse_written, ← List.append_nil u.host.1, readHost_append u (.inl rfl)]
    rfl
  · obtain ⟨r, hr, hchars⟩ := u.path.2
    have hp : u.path.1 = p ++ rest := hp
    show ((readPath p).getD u.path).1 = _
    cases p with
    | nil => rfl
    | cons c p =>
      obtain ⟨rfl, rfl⟩ : c = '/' ∧ p ++ rest = r := List.cons.inj (hp.symm.trans hr)
      rw [readPath, dif_pos ⟨rfl, fun c hc => hchars c (List.mem_append_left rest hc)⟩]
      rfl

end PlainUrl

end Plain

/-! ## Kept addresses -/

section Kept

variable [UrlLibrary] [Platform]

open UrlLibrary

/-- An address that a sign-in keeps names one account and one server, however often it is asked with. -/
structure Steady (core : LockCore) (s base : Text) : Prop where
  again : normalizeServer base = .ok base
  secure : Secure base
  /-- It is what a sign-in with what was typed keeps. -/
  kept : ∀ {σ : Type} (srv : AccountServer σ) (request : SignIn) (fresh : ℕ → Space) (server server' : σ)
    (t : SignedIn), request.serverUrl = s →
    @signIn core.withServers σ srv request fresh server = (.ok (.signedIn t), server') → t.serverUrl = base
  account : ∀ store email, @known core.withServers _ store base email = @known core.withServers _ store s email
  token : ∀ fault email unprotect, rememberToken fault base email unprotect = rememberToken fault s email unprotect
  server : ∀ build device, connect build base device = connect build s device

/-- **An address is made once and for all just where the pages of the web vault come once.** -/
theorem address_steady (hurl : Documented) (core : LockCore) {s base : Text} (h : normalizeServer s = .ok base) :
    Steady core s base ↔ ∃ u, parse (typed s) = some u ∧ Endings.Once '/' tails (path u) := by
  rw [← normalizeServer_again hurl h]
  constructor
  · exact Steady.again
  intro hagain
  obtain ⟨-, -, -, -, hsafe, -⟩ := web_of_normalizeServer hurl h
  have hoption : (normalizeServer base).toOption = (normalizeServer s).toOption := by rw [hagain, h]
  refine ⟨hagain, secure_of_safeAddress hsafe, ?_, ?_, ?_, ?_⟩
  · intro σ srv request fresh server server' t hs hsigned
    obtain ⟨hbase, -⟩ := @signIn_eq_ok core.withServers _ _ _ _ _ _ _ hsigned
    have hkept : (normalizeServer s).toOption = some t.serverUrl := hs ▸ hbase
    rw [h] at hkept
    exact (Option.some.inj hkept).symm
  · intro store email
    have hsame : @LockCore.normalizeServer core.withServers base = @LockCore.normalizeServer core.withServers s :=
      hoption
    unfold known
    rw [hsame]
  · intro fault email unprotect
    rw [rememberToken, rememberToken, hagain, h]
  · intro build device
    rw [connect, connect, hagain, h]

end Kept

/-- Both pages, in their order, are behind this address once. -/
theorem address_steady_login :
    letI := plainUrls
    letI := asciiPlatform
    normalizeServer "example.com/login/api/".toList = .ok "https://example.com".toList ∧
      Steady plainCore "example.com/login/api/".toList "https://example.com".toList := by
  let _ := plainUrls
  let _ := asciiPlatform
  have hmade : normalizeServer "example.com/login/api/".toList = .ok "https://example.com".toList := by decide +kernel
  refine ⟨hmade, (address_steady PlainUrl.documented plainCore hmade).mpr
    ⟨_, rfl, [], ["/api".toList, "/login".toList], 0, 1, rfl, by decide, rfl, ?_⟩⟩
  decide

/-- A device that knows an account on a server under a path. -/
def knownUnderPath : LockStore :=
  { newInstall with
    kept := { newInstall.kept with
      accounts := Table.empty.set ("https://example.com/api".toList, "ann".toList) ⟨none, some [], some 1, []⟩ } }

/-- Two pages behind an address, out of their order: the first round leaves one for the second. -/
theorem address_twice :
    letI := plainUrls
    letI := asciiPlatform
    UrlLibrary.Documented ∧
      normalizeServer "https://example.com/api/login".toList = .ok "https://example.com/api".toList ∧
      normalizeServer "https://example.com/api".toList = .ok "https://example.com".toList ∧
      @known plainCore.withServers _ knownUnderPath "https://example.com/api/login".toList "ann".toList =
        .ok ⟨some (.pbkdf2 600000), some 1, []⟩ ∧
      @known plainCore.withServers _ knownUnderPath "https://example.com/api".toList "ann".toList =
        .ok ⟨none, none, []⟩ := by
  let _ := plainUrls
  let _ := asciiPlatform
  exact ⟨PlainUrl.documented, by decide +kernel, by decide +kernel, by decide +kernel, by decide +kernel⟩

end UwuRdp
