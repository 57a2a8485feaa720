import Mathlib.Data.List.TakeWhile
import Nits.ClientWeb.Http
import Nits.Logical.Association

/-!
# Browser access

The browser origin boundary, with the Host check that prevents DNS rebinding. A Host names
where the connection was accepted, or a configured origin. An Origin is configured, or it is
the http origin of a Host that is local. Names are compared as texts: the port that a scheme
implies may be written or not, and letter case is ignored.
-/

namespace Nits.ClientWeb

open Logical

/-! ## Addresses -/

/-- An address of either family. -/
inductive IpAddr
  | v4 (a b c d : UInt8)
  | v6 (segments : Vector UInt16 8)
  deriving DecidableEq

/-- An address and a port. -/
structure SocketAddr where
  ip : IpAddr
  port : UInt16

/-- A run of zero segments. -/
structure ZeroRun where
  start : Nat
  len : Nat

/-- The longest run of zeroes, the first of those. -/
def longestZeroes (segments : List UInt16) : ZeroRun :=
  (segments.zipIdx.foldl (fun (longest, current) (segment, i) =>
    if segment = 0 then
      let current : ZeroRun := if current.len = 0 then ⟨i, 1⟩ else ⟨current.start, current.len + 1⟩
      (if longest.len < current.len then current else longest, current)
    else (longest, ⟨0, 0⟩)) ((⟨0, 0⟩, ⟨0, 0⟩) : ZeroRun × ZeroRun)).1

def hexText (segments : List UInt16) : List Char :=
  [':'].intercalate (segments.map fun segment => Nat.toDigits 16 segment.toNat)

/-- The hexadecimal segments, with the longest run of several zeroes left out. -/
def compressed (segments : List UInt16) : List Char :=
  let zeroes := longestZeroes segments
  if 1 < zeroes.len then
    hexText (segments.take zeroes.start) ++ [':', ':'] ++
      hexText (segments.drop (zeroes.start + zeroes.len))
  else hexText segments

def octetsText (a b c d : UInt8) : List Char :=
  ['.'].intercalate ([a, b, c, d].map fun octet => Nat.toDigits 10 octet.toNat)

/-- The IPv4 address that an IPv6 address maps. -/
def toIpv4Mapped (segments : List UInt16) : Option (UInt8 × UInt8 × UInt8 × UInt8) :=
  match segments with
  | [0, 0, 0, 0, 0, 0xffff, high, low] =>
    some (.ofNat (high.toNat / 256), .ofNat (high.toNat % 256), .ofNat (low.toNat / 256),
      .ofNat (low.toNat % 256))
  | _ => none

/-- An IPv6 address as the standard library shows it, with a mapped address in dots. -/
def displayV6 (segments : List UInt16) : List Char :=
  match toIpv4Mapped segments with
  | some (a, b, c, d) => "::ffff:".toList ++ octetsText a b c d
  | none => compressed segments

namespace IpAddr

def isLoopback : IpAddr → Bool
  | .v4 a _ _ _ => a = 127
  | .v6 segments => segments.toList = [0, 0, 0, 0, 0, 0, 0, 1]

/-- The address in the host part of an authority, as the bridge writes it. -/
def authorityText : IpAddr → List Char
  | .v4 a b c d => octetsText a b c d
  | .v6 segments => '[' :: displayV6 segments.toList ++ [']']

def isMapped : IpAddr → Bool
  | .v4 .. => false
  | .v6 segments => (toIpv4Mapped segments.toList).isSome

end IpAddr

/-! ## Origins -/

/-- A parsed URL. The port is `none` where the scheme implies it; `rest` is all that is not
part of the origin. -/
structure Url where
  scheme : String
  host : Option String
  port : Option Nat
  rest : String
  deriving DecidableEq

def portText (port : Option Nat) : List Char :=
  match port with
  | none => []
  | some port => ':' :: Nat.toDigits 10 port

namespace Url

def hostText (url : Url) : List Char := (url.host.getD "").toList

def authority (url : Url) : List Char := url.hostText ++ portText url.port

/-- The serialized origin, of the schemes that have one. -/
def serialization (url : Url) : String :=
  String.ofList (url.scheme.toList ++ "://".toList ++ url.authority)

end Url

/-- The URL library's parser. -/
class Urls where
  parse : String → Option Url

/-- A URL is an exact http origin, with no credentials, path, query or fragment. -/
def isExact [Urls] (value : String) (url : Url) : Bool :=
  Urls.parse value = some url ∧ (url.scheme = "http" ∨ url.scheme = "https") ∧
    ¬ url.hostText.contains '*' ∧ url.serialization = value

/-- A canonical http origin. -/
structure BrowserOrigin [Urls] where
  url : Url
  exact_ : isExact url.serialization url
  deriving DecidableEq

namespace BrowserOrigin

variable [Urls]

/-- Browsers serialize an origin this way. -/
def fromStr (value : String) : Option BrowserOrigin :=
  match Urls.parse value with
  | none => none
  | some url =>
    if exact_ : isExact value url then
      some ⟨url, by
        have same : url.serialization = value := (of_decide_eq_true exact_).2.2.2
        rw [same]
        exact exact_⟩
    else none

def defaultPort (origin : BrowserOrigin) : Nat :=
  if origin.url.scheme = "https" then 443 else 80

end BrowserOrigin

/-! ## Access -/

/-- Texts that are equal but for ASCII letter case. -/
def sameLetters (left right : List Char) : Bool := left.map Char.toLower = right.map Char.toLower

/-- The text without an ending, if it has that. -/
def stripSuffix (ending text : List Char) : List Char :=
  if ending <:+ text then text.take (text.length - ending.length) else text

/-- Whether a Host header names the origin's authority. -/
def matchesHost [Urls] (origin : BrowserOrigin) (host : List Char) : Bool :=
  let host := if origin.url.port = none then
      stripSuffix (portText (some origin.defaultPort)) host
    else host
  sameLetters origin.url.authority host

/-- Where a connection was accepted, and the configured origins. -/
structure Access [Urls] where
  «local» : SocketAddr
  extra : List BrowserOrigin

/-- The text of a header value, if all of it is visible ASCII. -/
def toStr (value : Bytes) : Option String :=
  if value.all fun byte => (32 ≤ byte.toNat ∧ byte.toNat < 127) ∨ byte.toNat = 9 then
    some (String.ofList (value.map fun byte => Char.ofNat byte.toNat))
  else none

/-- The value of a header that comes once. -/
def unique (headers : List (String × Bytes)) (name : String) : Option Bytes :=
  match headers.filter fun header => header.1 = name with
  | [header] => some header.2
  | _ => none

def HOST : String := "host"
def ORIGIN : String := "origin"
def UPGRADE : String := "upgrade"

namespace Access

variable [Urls]

def localAuthority (access : Access) (authority : List Char) : Bool :=
  let port := access.local.port.toNat
  let authority := if port = 80 then stripSuffix (portText (some 80)) authority else authority
  let port := if port = 80 then [] else portText (some port)
  sameLetters authority (access.local.ip.authorityText ++ port) ∨
    (access.local.ip.isLoopback ∧ sameLetters authority ("localhost".toList ++ port))

/-- Whether the Host header is admitted. -/
def allowsHost (access : Access) (headers : List (String × Bytes)) : Bool :=
  match (unique headers HOST).bind toStr with
  | none => false
  | some host => access.localAuthority host.toList ∨
      access.extra.any fun origin => matchesHost origin host.toList

/-- Whether the origin is admitted. -/
def allowsOrigin (access : Access) (headers : List (String × Bytes)) : Bool :=
  match ((unique headers ORIGIN).bind toStr).bind BrowserOrigin.fromStr with
  | none => false
  | some origin =>
    if access.extra.contains origin then true
    else origin.url.scheme = "http" ∧ access.localAuthority origin.url.authority ∧
      ((unique headers HOST).bind toStr).any fun host => matchesHost origin host.toList

end Access

/-! ## Routing -/

/-- How a connection is answered. A session gets the bytes that were read behind the head,
then what is not read yet. -/
inductive Reply
  | reject (status : String)
  | asset
  | session (pending : Bytes) (rest : List Bytes)
  /-- The connection ended early. -/
  | failed
  deriving DecidableEq

/-- One connection: the socket's path with an upgrade becomes a session, anything else is a
single response. `handshake` tells whether the head is a valid handshake. -/
def route [Http] [Urls] (access : Access) (handshake : RequestHead → Bool)
    (reads : List Bytes) : Reply :=
  match readHead reads with
  | .error .invalid => .reject "400 Bad Request"
  | .error .unexpectedEof => .failed
  | .ok (head, pending, rest) =>
    if ¬ access.allowsHost head.headers then .reject "403 Forbidden"
    else if Http.path head.uri = "/ws" ∨ head.headers.any fun header => header.1 = UPGRADE then
      if ¬ Http.uriIs head.uri "/ws" then .reject "404 Not Found"
      else if ¬ access.allowsOrigin head.headers then .reject "403 Forbidden"
      else if ¬ handshake head then .reject "400 Bad Request"
      else .session pending rest
    else .asset

/-! ## Hosts -/

/-- A host of an authority: colons stand in brackets only. -/
structure HostLike (host : List Char) : Prop where
  lower : host.map Char.toLower = host
  bracketed : ':' ∈ host → host.getLast? = some ']'

theorem toLower_of_toDigits {base : Nat} (small : 1 < base) (bound : base ≤ 16) (value : Nat) :
    ∀ char ∈ Nat.toDigits base value, char.toLower = char ∧ char ≠ ':' ∧ char ≠ '*' := by
  induction value using Nat.strong_induction_on with
  | _ value ih =>
    have one : ∀ digit < 16, (Nat.digitChar digit).toLower = Nat.digitChar digit ∧
        Nat.digitChar digit ≠ ':' ∧ Nat.digitChar digit ≠ '*' := by decide
    intro char mem
    rw [Nat.toDigits_eq_if small] at mem
    split at mem
    next least =>
      rw [List.mem_singleton.mp mem]
      exact one value (by omega)
    next more =>
      rcases List.mem_append.mp mem with high | low
      · exact ih (value / base) (Nat.div_lt_self (by omega) small) char high
      · rw [List.mem_singleton.mp low]
        exact one _ (Nat.lt_of_lt_of_le (Nat.mod_lt _ (by omega)) bound)

theorem getLast?_portText (port : Nat) : (portText (some port)).getLast? ≠ some ']' := by
  intro last
  have mem := List.mem_of_getLast? last
  rcases List.mem_cons.mp mem with colon | digit
  · exact absurd colon (by decide)
  · exact absurd (Nat.isDigit_of_mem_toDigits (by decide) (by decide) digit) (by decide)

theorem HostLike.ne_append {host : List Char} (like : HostLike host) (lead : List Char) (port : Nat) :
    host ≠ lead ++ portText (some port) := by
  intro same
  have colon : ':' ∈ host := by
    rw [same]
    exact List.mem_append_right _ List.mem_cons_self
  have last := like.bracketed colon
  have some_ : portText (some port) ≠ [] := List.cons_ne_nil _ _
  rw [same, List.getLast?_append_of_ne_nil _ some_] at last
  exact getLast?_portText port last

theorem map_toLower_of_forall {chars : List Char} (lower : ∀ char ∈ chars, char.toLower = char) :
    chars.map Char.toLower = chars :=
  (List.map_congr_left lower).trans (List.map_id chars)

theorem portText_lower (port : Option Nat) : (portText port).map Char.toLower = portText port := by
  cases port with
  | none => rfl
  | some port =>
    refine map_toLower_of_forall (List.forall_mem_cons.mpr ⟨rfl, fun char mem => ?_⟩)
    exact (toLower_of_toDigits (by decide) (by decide) port char mem).1

/-- Two colons with digits behind end alike only when the digits are the same. -/
theorem portText_append_inj {left right : List Char} {port other : Nat}
    (same : left ++ portText (some port) = right ++ portText (some other)) :
    left = right ∧ port = other := by
  have reversed := congrArg List.reverse same
  simp only [portText, List.reverse_append, List.reverse_cons, List.append_assoc] at reversed
  have plain (port : Nat) : ∀ char ∈ (Nat.toDigits 10 port).reverse, (char ≠ ':' : Bool) := by
    intro char mem
    have here := (toLower_of_toDigits (by decide) (by decide) port char
      (List.mem_reverse.mp mem)).2.1
    simpa using here
  have digits := congrArg (List.takeWhile fun char => (char ≠ ':' : Bool)) reversed
  rw [List.takeWhile_append_of_pos (plain port), List.takeWhile_append_of_pos (plain other)] at digits
  simp only [List.singleton_append, ne_eq, not_true_eq_false, decide_false, Bool.false_eq_true,
    not_false_eq_true, List.takeWhile_cons_of_neg, List.append_nil, List.reverse_inj] at digits
  have equal : port = other := by
    have values := congrArg (fun chars => Nat.ofDigitChars 10 chars 0) digits
    simpa only [Nat.ofDigitChars_ten_toDigits] using values
  subst equal
  exact ⟨List.append_cancel_right same, rfl⟩

/-- An authority says its host and its port. -/
theorem HostLike.authority_inj {left right : List Char} (leftLike : HostLike left)
    (rightLike : HostLike right) {port other : Option Nat}
    (same : left ++ portText port = right ++ portText other) : left = right ∧ port = other := by
  cases port with
  | none =>
    cases other with
    | none => exact ⟨by simpa [portText] using same, rfl⟩
    | some other =>
      rw [portText, List.append_nil] at same
      exact absurd same (leftLike.ne_append right other)
  | some port =>
    cases other with
    | none =>
      rw [show portText none = [] from rfl, List.append_nil] at same
      exact absurd same.symm (rightLike.ne_append left port)
    | some other =>
      obtain ⟨hosts, rfl⟩ := portText_append_inj same
      exact ⟨hosts, rfl⟩

/-- A text names a host and a port: the port that the scheme implies may be left out, and
letter case is ignored. -/
def Names (host : List Char) (port default : Nat) (text : List Char) : Prop :=
  text.map Char.toLower = host ++ portText (some port) ∨
    (port = default ∧ text.map Char.toLower = host)

theorem stripSuffix_eq {host text : List Char} (like : HostLike host) (port : Nat) :
    stripSuffix (portText (some port)) text = host ↔
      text = host ++ portText (some port) ∨ text = host := by
  unfold stripSuffix
  split
  next ends =>
    obtain ⟨lead, rfl⟩ := ends
    rw [List.length_append, Nat.add_sub_cancel, List.take_left, List.append_left_inj]
    exact (or_iff_left fun same => like.ne_append lead port same.symm).symm
  next plain =>
    exact (or_iff_right fun same => plain ⟨host, same.symm⟩).symm

theorem toLower_eq {char wanted : Char} (plain : wanted.isDigit ∨ wanted = ':') :
    char.toLower = wanted ↔ char = wanted := by
  have small : wanted.toNat ≤ 58 := by
    rcases plain with digit | rfl
    · have bounds := (Char.isDigit_iff_toNat.mp digit).2
      have nine : '9'.toNat = 57 := rfl
      omega
    · decide
  unfold Char.toLower
  split
  next upper =>
    have big : 65 ≤ char.toNat := upper.1
    refine iff_of_false ?_ ?_
    · rintro rfl
      have top : char.val.toNat ≤ 90 := upper.2
      have raised : (char.val + ('a'.val - 'A'.val)).toNat = char.val.toNat + 32 := by
        rw [UInt32.toNat_add]
        exact Nat.mod_eq_of_lt (by
          have step : ('a'.val - 'A'.val).toNat = 32 := rfl
          omega)
      change (char.val + ('a'.val - 'A'.val)).toNat ≤ 58 at small
      change 65 ≤ char.val.toNat at big
      omega
    · rintro rfl
      omega
  next => exact Iff.rfl

theorem map_toLower_eq {plain text : List Char} (digits : ∀ char ∈ plain, char.isDigit ∨ char = ':') :
    text.map Char.toLower = plain ↔ text = plain := by
  induction plain generalizing text with
  | nil => exact List.map_eq_nil_iff
  | cons char plain ih =>
    obtain ⟨first, digits⟩ := List.forall_mem_cons.mp digits
    cases text with
    | nil => simp
    | cons head text =>
      rw [List.map_cons, List.cons.injEq, List.cons.injEq, toLower_eq first, ih digits]

theorem portText_plain (port : Nat) : ∀ char ∈ portText (some port), char.isDigit ∨ char = ':' := by
  refine List.forall_mem_cons.mpr ⟨.inr rfl, fun char mem => .inl ?_⟩
  exact Nat.isDigit_of_mem_toDigits (by decide) (by decide) mem

/-- Leaving out the port and ignoring letter case commute. -/
theorem map_stripSuffix (port : Nat) (text : List Char) :
    (stripSuffix (portText (some port)) text).map Char.toLower =
      stripSuffix (portText (some port)) (text.map Char.toLower) := by
  have ends : portText (some port) <:+ text ↔ portText (some port) <:+ text.map Char.toLower := by
    constructor
    · rintro ⟨lead, rfl⟩
      rw [List.map_append, portText_lower]
      exact List.suffix_append _ _
    · rintro ⟨lead, same⟩
      obtain ⟨left, right, rfl, _, lowered⟩ := List.map_eq_append_iff.mp same.symm
      rw [(map_toLower_eq (portText_plain port)).mp lowered]
      exact List.suffix_append _ _
  unfold stripSuffix
  by_cases here : portText (some port) <:+ text
  · rw [if_pos here, if_pos (ends.mp here), List.map_take, List.length_map]
  · rw [if_neg here, if_neg (ends.not.mp here)]

/-- Reading an authority with the scheme's port left out is reading the names. -/
theorem names_iff {host text : List Char} (like : HostLike host) (port default : Nat) :
    Names host port default text ↔
      sameLetters (if port = default then stripSuffix (portText (some default)) text else text)
        (host ++ if port = default then [] else portText (some port)) := by
  unfold Names sameLetters
  rw [decide_eq_true_eq]
  by_cases implied : port = default
  · subst implied
    rw [if_pos rfl, if_pos rfl, List.append_nil, like.lower, map_stripSuffix, stripSuffix_eq like,
      and_iff_right rfl]
  · rw [if_neg implied, if_neg implied, List.map_append, like.lower, portText_lower]
    exact or_iff_left fun both => implied both.1

/-! ## Local names -/

/-- The address as browsers write it in a URL. -/
def IpAddr.hostText : IpAddr → List Char
  | .v4 a b c d => octetsText a b c d
  | .v6 segments => '[' :: compressed segments.toList ++ [']']

/-- A loopback address, or an IPv6 address that maps one. -/
def IpAddr.IsLoopback : IpAddr → Prop
  | .v4 a b c d => (IpAddr.v4 a b c d).isLoopback
  | .v6 segments => (IpAddr.v6 segments).isLoopback ∨
      ∃ b c d, toIpv4Mapped segments.toList = some (127, b, c, d)

/-- A host that names an address: itself, or `localhost` on a loopback address. -/
inductive LocalName (ip : IpAddr) : List Char → Prop
  | address : LocalName ip ip.hostText
  | localhost (loopback : ip.IsLoopback) : LocalName ip "localhost".toList

theorem mem_intercalate {separator : List Char} {texts : List (List Char)} {char : Char}
    (mem : char ∈ separator.intercalate texts) :
    char ∈ separator ∨ ∃ text ∈ texts, char ∈ text := by
  induction texts with
  | nil => exact absurd mem List.not_mem_nil
  | cons text texts ih =>
    cases texts with
    | nil =>
      rw [List.intercalate_singleton] at mem
      exact .inr ⟨text, List.mem_cons_self, mem⟩
    | cons next texts =>
      rw [List.intercalate_cons_cons, List.mem_append, List.mem_append] at mem
      rcases mem with (here | separates) | later
      · exact .inr ⟨text, List.mem_cons_self, here⟩
      · exact .inl separates
      · exact (ih later).imp_right fun ⟨text, isText, inText⟩ =>
          ⟨text, List.mem_cons_of_mem _ isText, inText⟩

theorem hexText_lower (segments : List UInt16) :
    ∀ char ∈ hexText segments, char.toLower = char ∧ char ≠ '*' := by
  intro char mem
  rcases mem_intercalate mem with separator | ⟨text, isText, inText⟩
  · rw [List.mem_singleton.mp separator]
    decide
  · obtain ⟨segment, _, rfl⟩ := List.mem_map.mp isText
    obtain ⟨lower, _, plain⟩ := toLower_of_toDigits (by decide) (by decide) _ char inText
    exact ⟨lower, plain⟩

theorem compressed_lower (segments : List UInt16) :
    ∀ char ∈ compressed segments, char.toLower = char ∧ char ≠ '*' := by
  have colon : ∀ char ∈ [':', ':'], char.toLower = char ∧ char ≠ '*' := by simp
  unfold compressed
  dsimp only
  split
  · exact List.forall_mem_append.mpr
      ⟨List.forall_mem_append.mpr ⟨hexText_lower _, colon⟩, hexText_lower _⟩
  · exact hexText_lower segments

theorem octetsText_plain (a b c d : UInt8) :
    ∀ char ∈ octetsText a b c d, char.toLower = char ∧ char ≠ ':' ∧ char ≠ '*' := by
  intro char mem
  rcases mem_intercalate mem with separator | ⟨text, isText, inText⟩
  · rw [List.mem_singleton.mp separator]
    decide
  · obtain ⟨octet, _, rfl⟩ := List.mem_map.mp isText
    exact toLower_of_toDigits (by decide) (by decide) _ char inText

theorem hostText_lower (ip : IpAddr) : ∀ char ∈ ip.hostText, char.toLower = char ∧ char ≠ '*' := by
  have bracket : ∀ char ∈ ['[', ']'], char.toLower = char ∧ char ≠ '*' := by simp
  cases ip with
  | v4 a b c d =>
    intro char mem
    obtain ⟨lower, _, plain⟩ := octetsText_plain a b c d char mem
    exact ⟨lower, plain⟩
  | v6 segments =>
    refine List.forall_mem_append.mpr ⟨List.forall_mem_cons.mpr ⟨by decide, compressed_lower _⟩, ?_⟩
    exact fun char mem => bracket char (List.mem_cons_of_mem _ mem)

theorem hostLike_hostText (ip : IpAddr) : HostLike ip.hostText := by
  refine ⟨map_toLower_of_forall fun char mem => (hostText_lower ip char mem).1, ?_⟩
  cases ip with
  | v4 a b c d => exact fun colon => absurd rfl (octetsText_plain a b c d ':' colon).2.1
  | v6 segments => exact fun _ => List.getLast?_concat

namespace LocalName

variable {ip : IpAddr} {host : List Char}

theorem hostLike (named : LocalName ip host) : HostLike host := by
  cases named with
  | address => exact hostLike_hostText ip
  | localhost => exact ⟨by decide, by decide⟩

theorem plain (named : LocalName ip host) : '*' ∉ host := by
  cases named with
  | address => exact fun star => (hostText_lower ip '*' star).2 rfl
  | localhost => decide

end LocalName

/-- The http origin of a host and a port, as browsers write it. -/
def httpOrigin (host : List Char) (port : Nat) : String :=
  String.ofList ("http://".toList ++ (host ++ portText (if port = 80 then none else some port)))

/-! ## What is admitted -/

section Admission

variable [Urls]

/-- What the URL library makes of http URLs is canonical, and it reads the origin of a local
name as browsers write it. -/
structure Browsers (access : Access) : Prop where
  hostLike : ∀ value url, Urls.parse value = some url →
    url.scheme = "http" ∨ url.scheme = "https" → HostLike url.hostText
  implied : ∀ value url, Urls.parse value = some url →
    url.port ≠ some (if url.scheme = "https" then 443 else 80)
  served : ∀ host, LocalName access.local.ip host →
    ∃ rest, Urls.parse (httpOrigin host access.local.port.toNat) =
      some ⟨"http", some (String.ofList host),
        if access.local.port.toNat = 80 then none else some access.local.port.toNat, rest⟩

namespace BrowserOrigin

variable {access : Access}

/-- The port that an origin is at. -/
def port (origin : BrowserOrigin) : Nat := origin.url.port.getD origin.defaultPort

theorem hostLike (browsers : Browsers access) (origin : BrowserOrigin) :
    HostLike origin.url.hostText := by
  obtain ⟨parsed, scheme, _⟩ := of_decide_eq_true origin.exact_
  exact browsers.hostLike _ _ parsed scheme

theorem implied (browsers : Browsers access) (origin : BrowserOrigin) :
    origin.url.port ≠ some origin.defaultPort :=
  browsers.implied _ _ (of_decide_eq_true origin.exact_).1

theorem fromStr_eq {value : String} {origin : BrowserOrigin} :
    fromStr value = some origin ↔ origin.url.serialization = value := by
  constructor
  · intro read
    unfold fromStr at read
    split at read
    · cases read
    · split at read
      next exact_ =>
        cases read
        exact (of_decide_eq_true exact_).2.2.2
      next => cases read
  · rintro rfl
    have parsed := (of_decide_eq_true origin.exact_).1
    unfold fromStr
    split
    next none_ =>
      rw [none_] at parsed
      cases parsed
    next url some_ =>
      rw [some_] at parsed
      cases parsed
      rw [dif_pos origin.exact_]

theorem matchesHost_iff (browsers : Browsers access) (origin : BrowserOrigin) (text : List Char) :
    matchesHost origin text ↔
      Names origin.url.hostText origin.port origin.defaultPort text := by
  have symmetric (left right : List Char) : sameLetters left right = sameLetters right left := by
    unfold sameLetters
    rw [decide_eq_decide]
    exact eq_comm
  rw [names_iff (origin.hostLike browsers)]
  unfold matchesHost port
  dsimp only
  rw [symmetric, Url.authority]
  cases written : origin.url.port with
  | none => simp [portText]
  | some port =>
    have other : port ≠ origin.defaultPort := by
      rintro rfl
      exact origin.implied browsers written
    simp [other]

end BrowserOrigin

variable {access : Access} {headers : List (String × Bytes)}

theorem localAuthority_iff (unmapped : ¬ access.local.ip.isMapped) (text : List Char) :
    access.localAuthority text ↔ ∃ host, LocalName access.local.ip host ∧
      Names host access.local.port.toNat 80 text := by
  have written : access.local.ip.authorityText = access.local.ip.hostText := by
    cases ip : access.local.ip with
    | v4 => rfl
    | v6 segments =>
      rw [ip] at unmapped
      have none_ : toIpv4Mapped segments.toList = none := Option.not_isSome_iff_eq_none.mp unmapped
      simp only [IpAddr.authorityText, IpAddr.hostText, displayV6, none_]
  have loopback : access.local.ip.isLoopback ↔ access.local.ip.IsLoopback := by
    cases ip : access.local.ip with
    | v4 => exact Iff.rfl
    | v6 segments =>
      rw [ip] at unmapped
      have none_ : toIpv4Mapped segments.toList = none := Option.not_isSome_iff_eq_none.mp unmapped
      refine (or_iff_left ?_).symm
      rintro ⟨_, _, _, mapped⟩
      rw [none_] at mapped
      cases mapped
  unfold Access.localAuthority
  dsimp only
  rw [decide_eq_true_eq, written, loopback]
  constructor
  · rintro (address | ⟨here, localhost⟩)
    · exact ⟨_, .address, (names_iff (hostLike_hostText _) _ _).mpr address⟩
    · exact ⟨_, .localhost here, (names_iff (LocalName.localhost here).hostLike _ _).mpr localhost⟩
  · rintro ⟨host, named, names⟩
    have same := (names_iff named.hostLike _ _).mp names
    cases named with
    | address => exact .inl same
    | localhost here => exact .inr ⟨here, same⟩

/-- The text of a header that comes once, if it is visible ASCII. -/
def headerText (headers : List (String × Bytes)) (name : String) : Option String :=
  (unique headers name).bind toStr

/-- A Host names where the connection was accepted, or a configured origin. -/
def Qualifies (access : Access) (host : List Char) : Prop :=
  (∃ name, LocalName access.local.ip name ∧ Names name access.local.port.toNat 80 host) ∨
    ∃ origin ∈ access.extra, Names origin.url.hostText origin.port origin.defaultPort host

theorem allowsHost_iff (browsers : Browsers access) (unmapped : ¬ access.local.ip.isMapped) :
    access.allowsHost headers ↔
      ∃ host, headerText headers HOST = some host ∧ Qualifies access host.toList := by
  unfold Access.allowsHost Qualifies headerText
  cases (unique headers HOST).bind toStr with
  | none => simp
  | some host =>
    dsimp only
    rw [decide_eq_true_eq, localAuthority_iff unmapped, List.any_eq_true]
    simp only [BrowserOrigin.matchesHost_iff browsers]
    exact ⟨fun qualifies => ⟨host, rfl, qualifies⟩, fun ⟨_, same, qualifies⟩ =>
      Option.some.inj same ▸ qualifies⟩

/-- An origin is the http origin of a Host that is local. -/
def LocalOrigin (access : Access) (host origin : String) : Prop :=
  ∃ name, LocalName access.local.ip name ∧ Names name access.local.port.toNat 80 host.toList ∧
    origin = httpOrigin name access.local.port.toNat

def Configured (access : Access) (origin : String) : Prop :=
  ∃ configured ∈ access.extra, configured.url.serialization = origin

/-- A canonical authority names a local host only as it is written in the origin. -/
theorem serialization_of_names (browsers : Browsers access) {origin : BrowserOrigin}
    (http : origin.url.scheme = "http") {name : List Char} {port : Nat} (like : HostLike name)
    (names : Names name port 80 origin.url.authority) :
    origin.url.serialization = httpOrigin name port ∧ origin.url.hostText = name ∧
      origin.port = port := by
  have default_ : origin.defaultPort = 80 := if_neg (by rw [http]; decide)
  have implied := origin.implied browsers
  have own := origin.hostLike browsers
  have lower : origin.url.authority.map Char.toLower = origin.url.authority := by
    rw [Url.authority, List.map_append, own.lower, portText_lower]
  rw [default_] at implied
  unfold Names at names
  rw [lower] at names
  have parts : origin.url.hostText = name ∧
      origin.url.port = if port = 80 then none else some port := by
    rcases names with written | ⟨rfl, omitted⟩
    · obtain ⟨hosts, ports⟩ := own.authority_inj like written
      have other : port ≠ 80 := by
        rintro rfl
        exact implied ports
      rw [if_neg other]
      exact ⟨hosts, ports⟩
    · have padded : origin.url.hostText ++ portText origin.url.port = name ++ portText none := by
        rw [portText, List.append_nil]
        exact omitted
      rw [if_pos rfl]
      exact own.authority_inj like padded
  obtain ⟨hosts, ports⟩ := parts
  have lead : "http".toList ++ "://".toList = "http://".toList := by decide
  refine ⟨?_, hosts, ?_⟩
  · unfold Url.serialization Url.authority httpOrigin
    rw [http, hosts, ports, lead]
  · rw [BrowserOrigin.port, ports, default_]
    split
    next implied => exact implied.symm
    next => rfl

theorem allowsOrigin_iff (browsers : Browsers access) (unmapped : ¬ access.local.ip.isMapped)
    {host : String} (named : headerText headers HOST = some host) :
    access.allowsOrigin headers ↔ ∃ origin, headerText headers ORIGIN = some origin ∧
      (Configured access origin ∨ LocalOrigin access host origin) := by
  unfold headerText at named ⊢
  unfold Access.allowsOrigin
  rw [named]
  cases (unique headers ORIGIN).bind toStr with
  | none => simp
  | some value =>
    rw [Option.bind_some]
    constructor
    · intro allowed
      refine ⟨value, rfl, ?_⟩
      cases read : BrowserOrigin.fromStr value with
      | none =>
        rw [read] at allowed
        cases allowed
      | some origin =>
        rw [read] at allowed
        have written := BrowserOrigin.fromStr_eq.mp read
        dsimp only at allowed
        split at allowed
        next known => exact .inl ⟨origin, List.contains_iff_mem.mp known, written⟩
        next =>
          obtain ⟨http, isLocal, matching⟩ := of_decide_eq_true allowed
          obtain ⟨name, isName, names⟩ := (localAuthority_iff unmapped _).mp isLocal
          obtain ⟨serialized, hosts, ports⟩ :=
            serialization_of_names browsers http isName.hostLike names
          have same := (origin.matchesHost_iff browsers host.toList).mp matching
          have default_ : origin.defaultPort = 80 := if_neg (by rw [http]; decide)
          rw [hosts, ports, default_] at same
          exact .inr ⟨name, isName, same, written.symm.trans serialized⟩
    · rintro ⟨_, same, allowed⟩
      obtain rfl := Option.some.inj same
      rcases allowed with ⟨origin, known, written⟩ | ⟨name, isName, names, rfl⟩
      · rw [BrowserOrigin.fromStr_eq.mpr written]
        exact if_pos (List.contains_iff_mem.mpr known)
      · obtain ⟨rest, parsed⟩ := browsers.served name isName
        let url : Url := ⟨"http", some (String.ofList name),
          if access.local.port.toNat = 80 then none else some access.local.port.toNat, rest⟩
        have hosts : url.hostText = name := String.toList_ofList
        have lead : "http".toList ++ "://".toList = "http://".toList := by decide
        have serialized : url.serialization = httpOrigin name access.local.port.toNat := by
          unfold Url.serialization Url.authority httpOrigin
          rw [hosts, lead]
        have exact_ : isExact url.serialization url := by
          refine decide_eq_true ⟨serialized ▸ parsed, .inl rfl, ?_, rfl⟩
          rw [hosts, List.contains_iff_mem]
          exact isName.plain
        have read : BrowserOrigin.fromStr (httpOrigin name access.local.port.toNat) =
            some ⟨url, exact_⟩ := BrowserOrigin.fromStr_eq.mpr serialized
        rw [read]
        dsimp only
        split
        · rfl
        · have own : Names name access.local.port.toNat 80 url.authority := by
            unfold Names Url.authority
            rw [hosts, List.map_append, isName.hostLike.lower, portText_lower]
            by_cases implied : access.local.port.toNat = 80
            · refine .inr ⟨implied, ?_⟩
              rw [show url.port = none from if_pos implied, portText, List.append_nil]
            · exact .inl (by rw [show url.port = some _ from if_neg implied])
          refine decide_eq_true ⟨rfl, (localAuthority_iff unmapped _).mpr ⟨name, isName, own⟩, ?_⟩
          have matching := (BrowserOrigin.mk url exact_).matchesHost_iff browsers host.toList
          have default_ : (BrowserOrigin.mk url exact_).defaultPort = 80 :=
            if_neg (show "http" ≠ "https" by decide)
          have port : (BrowserOrigin.mk url exact_).port = access.local.port.toNat := by
            unfold BrowserOrigin.port
            rw [default_]
            change (if access.local.port.toNat = 80 then none else
              some access.local.port.toNat).getD 80 = _
            split
            next implied => exact implied.symm
            next => rfl
          rw [port, default_] at matching
          exact matching.mpr (hosts.symm ▸ names)

/-- A target less its fragment, which the HTTP library drops. -/
def requested (uri : String) : String := String.ofList (uri.toList.takeWhile (· ≠ '#'))

/-- What a session takes of a head, with a rule for origins that are not configured. -/
structure Admitted (access : Access) (handshake : RequestHead → Bool)
    (own : String → String → Prop) (head : RequestHead) : Prop where
  target : requested head.uri = "/ws"
  shaken : handshake head
  named : ∃ host, headerText head.headers HOST = some host ∧ Qualifies access host.toList ∧
    ∃ origin, headerText head.headers ORIGIN = some origin ∧
      (Configured access origin ∨ own host origin)

/-- The HTTP library knows the socket's path. Whether it takes an empty query for no query is
left open. -/
structure KnowsSocket [Http] : Prop where
  path : ∀ uri, requested uri = "/ws" → Http.path uri = "/ws"
  uriIs : ∀ uri, requested uri ≠ "/ws?" → (Http.uriIs uri "/ws" ↔ requested uri = "/ws")

variable [Http]

/-- A session starts on a head that is admitted, and on no other; a Host that does not qualify is
forbidden whatever else comes; and what was read behind the head is kept. -/
theorem route_admits (access : Access) (handshake : RequestHead → Bool) (reads : List Bytes)
    (browsers : Browsers access) (socket : KnowsSocket) (unmapped : ¬ access.local.ip.isMapped) :
    (∀ pending rest, route access handshake reads = .session pending rest →
      ∃ head, readHead reads = .ok (head, pending, rest)) ∧
    ∀ head pending rest, readHead reads = .ok (head, pending, rest) →
      (requested head.uri ≠ "/ws?" → (route access handshake reads = .session pending rest ↔
        Admitted access handshake (LocalOrigin access) head)) ∧
      ((¬ ∃ host, headerText head.headers HOST = some host ∧ Qualifies access host.toList) →
        route access handshake reads = .reject "403 Forbidden") ∧
      ∃ bytes raw, Http.parse bytes = some raw ∧ raw.check = .ok head ∧
        reads.flatten = bytes ++ pending ++ rest.flatten := by
  constructor
  · intro pending rest session
    unfold route at session
    split at session
    · cases session
    · cases session
    next head behind later read =>
      refine ⟨head, read.trans ?_⟩
      split at session
      · cases session
      split at session
      · split at session
        · cases session
        split at session
        · cases session
        split at session
        · cases session
        cases session
        rfl
      · cases session
  · intro head pending rest read
    refine ⟨fun other => ?_, fun stranger => ?_, readHead_flatten read⟩
    · unfold route
      rw [read]
      dsimp only
      constructor
      · intro session
        split at session
        · cases session
        next allowed =>
        obtain ⟨host, named, qualifies⟩ :=
          (allowsHost_iff browsers unmapped).mp (not_not.mp allowed)
        split at session
        · split at session
          · cases session
          next isSocket =>
          split at session
          · cases session
          next origin =>
          split at session
          · cases session
          next shaken =>
          exact ⟨(socket.uriIs head.uri other).mp (not_not.mp isSocket), not_not.mp shaken, host,
            named, qualifies, (allowsOrigin_iff browsers unmapped named).mp (not_not.mp origin)⟩
        · cases session
      · rintro ⟨target, shaken, host, named, qualifies, origin⟩
        have allowed := (allowsHost_iff browsers unmapped).mpr ⟨host, named, qualifies⟩
        have sameOrigin := (allowsOrigin_iff browsers unmapped named).mpr origin
        have isSocket := (socket.uriIs head.uri other).mpr target
        rw [if_neg (not_not.mpr allowed), if_pos (.inl (socket.path head.uri target)),
          if_neg (not_not.mpr isSocket), if_neg (not_not.mpr sameOrigin), if_neg (not_not.mpr shaken)]
    · unfold route
      rw [read]
      exact if_pos fun allowed => stranger ((allowsHost_iff browsers unmapped).mp allowed)

end Admission

/-! ## Requests of two listeners -/

namespace Example

/-- An upgrade to the socket. -/
def raw (host origin : String) : RawHead where
  method := some "GET"
  path := some "/ws"
  version := some 1
  headers := [("Host", host), ("Origin", origin), ("Connection", "Upgrade"),
    ("Upgrade", "websocket"), ("Sec-WebSocket-Version", "13"),
    ("Sec-WebSocket-Key", "dGhlIHNhbXBsZSBub25jZQ==")].map fun header =>
      (header.1.toUTF8.data.toList, header.2.toUTF8.data.toList)

/-- The request as it is sent. -/
def bytes (host origin : String) : Bytes :=
  ("GET /ws HTTP/1.1\r\nHost: " ++ host ++ "\r\nOrigin: " ++ origin ++ "\r\n" ++
    "Connection: Upgrade\r\nUpgrade: websocket\r\nSec-WebSocket-Version: 13\r\n" ++
    "Sec-WebSocket-Key: dGhlIHNhbXBsZSBub25jZQ==\r\n\r\n").toUTF8.data.toList

/-- The library on one request, whose header names are ASCII. -/
@[reducible] def http (host origin : String) : Http where
  parse _ := some (raw host origin)
  isMethod method := method = "GET"
  isUri uri := uri = "/ws"
  headerName name := some (String.ofList (name.map fun byte => (Char.ofNat byte.toNat).toLower))
  isHeaderValue value := value.all fun byte => 32 ≤ byte.toNat ∧ byte.toNat < 127
  path uri := requested uri
  uriIs uri text := requested uri = text

theorem knowsSocket (host origin : String) : @KnowsSocket (http host origin) :=
  @KnowsSocket.mk (http host origin) (fun _ => id) fun _ _ => decide_eq_true_iff

/-- The URLs of some origins. -/
def table : List (String × Url) :=
  [("http://127.0.0.1:9777", ⟨"http", some "127.0.0.1", some 9777, "/"⟩),
    ("http://localhost:9777", ⟨"http", some "localhost", some 9777, "/"⟩),
    ("http://[::ffff:7f00:1]:9777", ⟨"http", some "[::ffff:7f00:1]", some 9777, "/"⟩),
    ("http://review.example", ⟨"http", some "review.example", none, "/"⟩),
    ("https://review.example", ⟨"https", some "review.example", none, "/"⟩)]

@[reducible] def urls : Urls where
  parse value := table.lookup value

/-- The origin behind a TLS proxy. -/
def proxied : @BrowserOrigin urls :=
  @BrowserOrigin.mk urls ⟨"https", some "review.example", none, "/"⟩ (by decide +kernel)

def listener (ip : IpAddr) (extra : List (@BrowserOrigin urls)) : @Access urls :=
  @Access.mk urls ⟨ip, 9777⟩ extra

def loopback : IpAddr := .v4 127 0 0 1

/-- How a listener on all addresses sees a connection to the IPv4 loopback address. -/
def mapped : IpAddr := .v6 #v[0, 0, 0, 0, 0, 0xffff, 0x7f00, 1]

theorem browsers {ip : IpAddr} {extra : List (@BrowserOrigin urls)}
    (isLoopback : ip ∈ [loopback, mapped]) : @Browsers urls (listener ip extra) := by
  have known : ∀ entry ∈ table, entry.2.hostText.map Char.toLower = entry.2.hostText ∧
      (':' ∈ entry.2.hostText → entry.2.hostText.getLast? = some ']') ∧
        entry.2.port ≠ some (if entry.2.scheme = "https" then 443 else 80) := by decide +kernel
  have found {value : String} {url : Url} (parsed : table.lookup value = some url) :
      ∃ entry ∈ table, entry.2 = url :=
    ⟨_, Association.mem_of_lookup parsed, rfl⟩
  refine @Browsers.mk urls _ (fun value url parsed _ => ?_) (fun value url parsed => ?_) (fun host named => ?_)
  · obtain ⟨entry, mem, rfl⟩ := found parsed
    exact ⟨(known entry mem).1, (known entry mem).2.1⟩
  · obtain ⟨entry, mem, rfl⟩ := found parsed
    exact (known entry mem).2.2
  · have address : ∀ ip ∈ [loopback, mapped], table.lookup (httpOrigin ip.hostText 9777) =
        some ⟨"http", some (String.ofList ip.hostText), some 9777, "/"⟩ := by decide +kernel
    have localhost : table.lookup (httpOrigin "localhost".toList 9777) =
        some ⟨"http", some "localhost", some 9777, "/"⟩ := by decide +kernel
    refine ⟨"/", ?_⟩
    cases named with
    | address => exact address ip isLoopback
    | localhost => exact localhost

/-- The head of an upgrade to the socket. -/
def head (host origin : String) : RequestHead where
  method := "GET"
  uri := "/ws"
  version := .http11
  headers := [("host", host), ("origin", origin), ("connection", "Upgrade"),
    ("upgrade", "websocket"), ("sec-websocket-version", "13"),
    ("sec-websocket-key", "dGhlIHNhbXBsZSBub25jZQ==")].map fun header =>
      (header.1, header.2.toUTF8.data.toList)

end Example

/-- A page of the listener itself opens a session, which gets the bytes behind the head. -/
theorem own_page_admitted : @route (Example.http "127.0.0.1:9777" "http://127.0.0.1:9777")
    Example.urls (Example.listener Example.loopback []) (fun _ => true)
      [Example.bytes "127.0.0.1:9777" "http://127.0.0.1:9777" ++ [1, 2], [3]] =
    .session [1, 2] [[3]] := by
  have read : @readHead (Example.http "127.0.0.1:9777" "http://127.0.0.1:9777")
      [Example.bytes "127.0.0.1:9777" "http://127.0.0.1:9777" ++ [1, 2], [3]] =
        .ok (Example.head "127.0.0.1:9777" "http://127.0.0.1:9777", [1, 2], [[3]]) := by
    decide +kernel
  obtain ⟨_, admits⟩ := @route_admits Example.urls
    (Example.http "127.0.0.1:9777" "http://127.0.0.1:9777")
    (Example.listener Example.loopback []) (fun _ => true)
    [Example.bytes "127.0.0.1:9777" "http://127.0.0.1:9777" ++ [1, 2], [3]]
    (Example.browsers (by decide)) (Example.knowsSocket _ _) (by decide)
  refine ((admits _ _ _ read).1 (by decide +kernel)).mpr (@Admitted.mk Example.urls _ _ _ _ (by decide +kernel) rfl
    ⟨"127.0.0.1:9777", by decide +kernel, .inl ⟨_, .address, .inl (by decide +kernel)⟩,
      "http://127.0.0.1:9777", by decide +kernel, .inr ?_⟩)
  exact ⟨_, .address, .inl (by decide +kernel), by decide +kernel⟩

/-- The http origin of exactly a Host. -/
def SameOrigin (host origin : String) : Prop :=
  ∃ name port, Names name port 80 host.toList ∧ origin = httpOrigin name port

/-- A configured Host does not admit its http origin, only the configured one; and a mapped
address is not known by any of its names. -/
theorem same_origin_refused :
    (¬ ∀ [Http] [Urls] (access : Access) (handshake : RequestHead → Bool) (reads : List Bytes)
      (head : RequestHead) (pending : Bytes) (rest : List Bytes), Browsers access → KnowsSocket →
      ¬ access.local.ip.isMapped → readHead reads = .ok (head, pending, rest) →
      Admitted access handshake SameOrigin head → route access handshake reads = .session pending rest) ∧
    ¬ ∀ [Http] [Urls] (access : Access) (handshake : RequestHead → Bool) (reads : List Bytes)
      (head : RequestHead) (pending : Bytes) (rest : List Bytes), Browsers access → KnowsSocket →
      access.extra = [] → readHead reads = .ok (head, pending, rest) →
      Admitted access handshake SameOrigin head →
        route access handshake reads = .session pending rest := by
  constructor
  · intro always
    have read : @readHead (Example.http "review.example" "http://review.example")
        [Example.bytes "review.example" "http://review.example"] =
          .ok (Example.head "review.example" "http://review.example", [], []) := by decide +kernel
    have session := @always (Example.http "review.example" "http://review.example") Example.urls
      (Example.listener Example.loopback [Example.proxied]) (fun _ => true)
      [Example.bytes "review.example" "http://review.example"]
      (Example.head "review.example" "http://review.example") [] []
      (Example.browsers (by decide)) (Example.knowsSocket _ _) (by decide) read
      (@Admitted.mk Example.urls _ _ _ _ (by decide +kernel) rfl ⟨"review.example", by decide +kernel,
        .inr ⟨_, List.mem_singleton_self _, .inr ⟨rfl, by decide +kernel⟩⟩,
        "http://review.example", by decide +kernel,
        .inr ⟨"review.example".toList, 80, .inr ⟨rfl, by decide⟩, by decide +kernel⟩⟩)
    unfold route at session
    rw [read] at session
    exact absurd session (by decide +kernel)
  · intro always
    have read : @readHead (Example.http "localhost:9777" "http://localhost:9777")
        [Example.bytes "localhost:9777" "http://localhost:9777"] =
          .ok (Example.head "localhost:9777" "http://localhost:9777", [], []) := by decide +kernel
    have session := @always (Example.http "localhost:9777" "http://localhost:9777") Example.urls
      (Example.listener Example.mapped []) (fun _ => true)
      [Example.bytes "localhost:9777" "http://localhost:9777"]
      (Example.head "localhost:9777" "http://localhost:9777") [] []
      (Example.browsers (by decide)) (Example.knowsSocket _ _) rfl read
      (@Admitted.mk Example.urls _ _ _ _ (by decide +kernel) rfl ⟨"localhost:9777", by decide +kernel,
        .inl ⟨_, .localhost (.inr ⟨0, 0, 1, by decide +kernel⟩), .inl (by decide +kernel)⟩,
        "http://localhost:9777", by decide +kernel,
        .inr ⟨"localhost".toList, 9777, .inl (by decide +kernel), by decide +kernel⟩⟩)
    unfold route at session
    rw [read] at session
    exact absurd session (by decide +kernel)

end Nits.ClientWeb
