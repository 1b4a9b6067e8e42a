import BarebonesProxy.RustState

set_option autoImplicit false

/-!
# Messages of the `http` crate

`HttpCrate` states what the proxy uses of `hyper` and of the `http` crate behind it: header
values and maps, URI parsing, reason phrases and the builder of a connection, with the
documented laws. A header map is known through the values it gives for each name, in order,
and a value through its bytes. `listHttp` is an instance.
-/
namespace BarebonesProxy.Http
open RustStrings RustState

/-- The characters of a header name; the crate keeps names in lower case. -/
def isNameChar (c : Char) : Bool :=
  ('a' ≤ c && c ≤ 'z') || isAsciiDigit c || "!#$%&'*+-.^_\x60|~".toList.contains c

structure HeaderName where
  text : Str
  valid : (!text.isEmpty && text.all isNameChar) = true
deriving DecidableEq

namespace HeaderName

def host : HeaderName := ⟨"host".toList, by decide⟩
def connection : HeaderName := ⟨"connection".toList, by decide⟩
def upgrade : HeaderName := ⟨"upgrade".toList, by decide⟩
def contentLength : HeaderName := ⟨"content-length".toList, by decide⟩
def contentType : HeaderName := ⟨"content-type".toList, by decide⟩
def cacheControl : HeaderName := ⟨"cache-control".toList, by decide⟩
def retryAfter : HeaderName := ⟨"retry-after".toList, by decide⟩
def accept : HeaderName := ⟨"accept".toList, by decide⟩
def userAgent : HeaderName := ⟨"user-agent".toList, by decide⟩
def referer : HeaderName := ⟨"referer".toList, by decide⟩
def cookie : HeaderName := ⟨"cookie".toList, by decide⟩
def setCookie : HeaderName := ⟨"set-cookie".toList, by decide⟩
def authorization : HeaderName := ⟨"authorization".toList, by decide⟩
def cfConnectingIp : HeaderName := ⟨"cf-connecting-ip".toList, by decide⟩
def trueClientIp : HeaderName := ⟨"true-client-ip".toList, by decide⟩
def xForwardedMethod : HeaderName := ⟨"x-forwarded-method".toList, by decide⟩
def xForwardedProto : HeaderName := ⟨"x-forwarded-proto".toList, by decide⟩
def xForwardedHost : HeaderName := ⟨"x-forwarded-host".toList, by decide⟩
def xForwardedUri : HeaderName := ⟨"x-forwarded-uri".toList, by decide⟩
def xForwardedFor : HeaderName := ⟨"x-forwarded-for".toList, by decide⟩
def xOriginalUrl : HeaderName := ⟨"x-original-url".toList, by decide⟩
def xApiKey : HeaderName := ⟨"x-api-key".toList, by decide⟩
def xRealIp : HeaderName := ⟨"x-real-ip".toList, by decide⟩
def xProxyCache : HeaderName := ⟨"x-proxy-cache".toList, by decide⟩
def strictTransportSecurity : HeaderName := ⟨"strict-transport-security".toList, by decide⟩
def xContentTypeOptions : HeaderName := ⟨"x-content-type-options".toList, by decide⟩
def xFrameOptions : HeaderName := ⟨"x-frame-options".toList, by decide⟩
def xXssProtection : HeaderName := ⟨"x-xss-protection".toList, by decide⟩

end HeaderName

structure StatusCode where
  code : ℕ
  valid : 100 ≤ code ∧ code < 1000
deriving DecidableEq

namespace StatusCode

def switchingProtocols : StatusCode := ⟨101, by decide⟩
def ok : StatusCode := ⟨200, by decide⟩
def payloadTooLarge : StatusCode := ⟨413, by decide⟩
def tooManyRequests : StatusCode := ⟨429, by decide⟩
def noResponse : StatusCode := ⟨444, by decide⟩
def internalServerError : StatusCode := ⟨500, by decide⟩
def badGateway : StatusCode := ⟨502, by decide⟩

def isSuccess (s : StatusCode) : Bool := 200 ≤ s.code && s.code < 300
def isClientError (s : StatusCode) : Bool := 400 ≤ s.code && s.code < 500
def isServerError (s : StatusCode) : Bool := 500 ≤ s.code && s.code < 600

end StatusCode

inductive Method where
  | get | head | post | put | delete | options | connect | patch | trace
  | extension (name : Str)
deriving DecidableEq

def Method.asStr : Method → Str
  | .get => "GET".toList
  | .head => "HEAD".toList
  | .post => "POST".toList
  | .put => "PUT".toList
  | .delete => "DELETE".toList
  | .options => "OPTIONS".toList
  | .connect => "CONNECT".toList
  | .patch => "PATCH".toList
  | .trace => "TRACE".toList
  | .extension name => name

/-- A URI through its accessors `authority()` and `path_and_query()`. -/
structure Uri where
  authority : Option Str
  pathAndQuery : Option Str
deriving DecidableEq

def Uri.path (u : Uri) : Str :=
  match u.pathAndQuery with
  | none => []
  | some pq =>
    let path := pq.takeWhile (· != '?')
    if path.isEmpty then "/".toList else path

def Uri.query (u : Uri) : Option Str :=
  match u.pathAndQuery with
  | none => none
  | some pq =>
    match pq.dropWhile (· != '?') with
    | [] => none
    | _ :: query => some query

def isVisible (c : Char) : Bool := (32 ≤ c.toNat && c.toNat < 127) || c == '\t'

def isVisibleByte (b : UInt8) : Bool := (32 ≤ b && b < 127) || b == 9

/-- Bytes as a text, one character for each. -/
def textOf (bytes : List UInt8) : Str := bytes.map fun b => Char.ofNat b.toNat

def utf8 (s : Str) : List UInt8 := s.flatMap String.utf8EncodeChar

/-- The characters of the reason phrases that the crate knows. -/
def isReasonChar (c : Char) : Bool :=
  ('a' ≤ c && c ≤ 'z') || ('A' ≤ c && c ≤ 'Z') || " '-".toList.contains c

section Values
variable {Name Value : Type} [DecidableEq Name]

def valuesOf (n : Name) (es : List (Name × Value)) : List Value :=
  es.filterMap fun e => if e.1 = n then some e.2 else none

@[simp] theorem valuesOf_nil (n : Name) : valuesOf n ([] : List (Name × Value)) = [] := rfl

theorem valuesOf_cons (n : Name) (e : Name × Value) (es : List (Name × Value)) :
    valuesOf n (e :: es) = (if e.1 = n then [e.2] else []) ++ valuesOf n es := by
  by_cases h : e.1 = n <;> simp [valuesOf, h]

theorem valuesOf_append (n : Name) (es es' : List (Name × Value)) :
    valuesOf n (es ++ es') = valuesOf n es ++ valuesOf n es' :=
  List.filterMap_append

theorem mem_valuesOf {n : Name} {v : Value} {es : List (Name × Value)} :
    v ∈ valuesOf n es ↔ (n, v) ∈ es := by
  unfold valuesOf
  rw [List.mem_filterMap]
  constructor
  · rintro ⟨e, he, h⟩
    split at h
    · next hn =>
      cases h
      rw [← hn]
      exact he
    · cases h
  · intro h
    exact ⟨(n, v), h, by simp⟩

theorem valuesOf_eq_nil {n : Name} {es : List (Name × Value)} (h : ∀ e ∈ es, e.1 ≠ n) :
    valuesOf n es = [] := by
  rw [List.eq_nil_iff_forall_not_mem]
  intro v hv
  exact h (n, v) (mem_valuesOf.mp hv) rfl

theorem valuesOf_filter (n : Name) (p : Name → Bool) (es : List (Name × Value)) :
    valuesOf n (es.filter fun e => p e.1) = if p n then valuesOf n es else [] := by
  induction es with
  | nil => simp
  | cons e es ih =>
    by_cases hp : p e.1 = true
    · rw [List.filter_cons_of_pos (p := fun e : Name × Value => p e.1) hp, valuesOf_cons, valuesOf_cons, ih]
      by_cases hn : e.1 = n
      · subst hn
        simp [hp]
      · simp [hn]
    · rw [List.filter_cons_of_neg (p := fun e : Name × Value => p e.1) hp, valuesOf_cons, ih]
      by_cases hn : e.1 = n
      · subst hn
        simp [hp]
      · simp [hn]

end Values

class HttpCrate where
  HeaderValue : Type
  asBytes : HeaderValue → List UInt8
  toStr : HeaderValue → Option Str
  fromStr : Str → Option HeaderValue
  fromStatic : Str → HeaderValue
  HeaderMap : Type
  empty : HeaderMap
  insert : HeaderMap → HeaderName → HeaderValue → HeaderMap
  append : HeaderMap → HeaderName → HeaderValue → HeaderMap
  iter : HeaderMap → List (HeaderName × HeaderValue)
  canonicalReason : StatusCode → Option Str
  parseUri : Str → Option Uri
  ServerBuilder : Type
  newBuilder : ServerBuilder
  maxBufSize : ServerBuilder → ℕ → Outcome ServerBuilder
  maxHeaderListSize : ServerBuilder → UInt32 → ServerBuilder
  bufSizeOf : ServerBuilder → ℕ
  headerListSizeOf : ServerBuilder → UInt32
  toStr_asBytes (v : HeaderValue) : toStr v =
    if (asBytes v).all isVisibleByte then some (textOf (asBytes v)) else none
  toStr_fromStatic {s : Str} : s.all isVisible = true → toStr (fromStatic s) = some s
  fromStr_visible {s : Str} : s.all isVisible = true → fromStr s = some (fromStatic s)
  toStr_fromStr {s : Str} {v : HeaderValue} : fromStr s = some v → toStr v = some s ∨ toStr v = none
  iter_empty : iter empty = []
  values_insert (m : HeaderMap) (n k : HeaderName) (v : HeaderValue) :
    valuesOf k (iter (insert m n v)) = if k = n then [v] else valuesOf k (iter m)
  values_append (m : HeaderMap) (n k : HeaderName) (v : HeaderValue) :
    valuesOf k (iter (append m n v)) = valuesOf k (iter m) ++ if k = n then [v] else []
  canonicalReason_plain {s : StatusCode} {reason : Str} :
    canonicalReason s = some reason → reason.all isReasonChar = true
  maxBufSize_small (b : ServerBuilder) {size : ℕ} : size < 8192 → maxBufSize b size = .panicked
  maxBufSize_large (b : ServerBuilder) {size : ℕ} : 8192 ≤ size →
    ∃ b', maxBufSize b size = .returned b' ∧ bufSizeOf b' = size
  bufSizeOf_maxHeaderListSize (b : ServerBuilder) (size : UInt32) :
    bufSizeOf (maxHeaderListSize b size) = bufSizeOf b
  headerListSizeOf_maxHeaderListSize (b : ServerBuilder) (size : UInt32) :
    headerListSizeOf (maxHeaderListSize b size) = size

export HttpCrate (HeaderValue HeaderMap)

theorem isVisible_of_byte {b : UInt8} (h : isVisibleByte b = true) :
    isVisible (Char.ofNat b.toNat) = true := by
  have hall : ∀ n < 256, isVisibleByte (.ofNat n) = true →
      isVisible (Char.ofNat (UInt8.ofNat n).toNat) = true := by
    decide +kernel
  have hb := hall b.toNat b.toNat_lt
  rw [UInt8.ofNat_toNat] at hb
  exact hb h

theorem HttpCrate.toStr_visible [HttpCrate] {v : HeaderValue} {s : Str}
    (h : HttpCrate.toStr v = some s) : s.all isVisible = true := by
  rw [HttpCrate.toStr_asBytes] at h
  split at h
  · next hbytes =>
    cases h
    rw [textOf, List.all_map, List.all_eq_true]
    exact fun b hb => isVisible_of_byte (List.all_eq_true.mp hbytes b hb)
  · cases h

namespace HeaderMap
variable [HttpCrate]

def values (m : HeaderMap) (n : HeaderName) : List HeaderValue := valuesOf n (HttpCrate.iter m)

def get (m : HeaderMap) (n : HeaderName) : Option HeaderValue := (values m n).head?

def getStr (m : HeaderMap) (n : HeaderName) : Option Str := (get m n).bind HttpCrate.toStr

def containsKey (m : HeaderMap) (n : HeaderName) : Bool := (get m n).isSome

def appendAll (m : HeaderMap) (es : List (HeaderName × HeaderValue)) : HeaderMap :=
  es.foldl (fun m e => HttpCrate.append m e.1 e.2) m

def insertAll (m : HeaderMap) (es : List (HeaderName × HeaderValue)) : HeaderMap :=
  es.foldl (fun m e => HttpCrate.insert m e.1 e.2) m

@[simp] theorem values_empty (n : HeaderName) : values HttpCrate.empty n = [] := by
  rw [values, HttpCrate.iter_empty]
  rfl

@[simp] theorem values_insert_self (m : HeaderMap) (n : HeaderName) (v : HeaderValue) :
    values (HttpCrate.insert m n v) n = [v] := by
  rw [values, HttpCrate.values_insert, if_pos rfl]

theorem values_insert_ne (m : HeaderMap) {n k : HeaderName} (v : HeaderValue) (h : k ≠ n) :
    values (HttpCrate.insert m n v) k = values m k := by
  rw [values, HttpCrate.values_insert, if_neg h]
  rfl

theorem values_appendAll (m : HeaderMap) (es : List (HeaderName × HeaderValue))
    (n : HeaderName) : values (appendAll m es) n = values m n ++ valuesOf n es := by
  induction es generalizing m with
  | nil => simp [appendAll]
  | cons e es ih =>
    have hstep : values (HttpCrate.append m e.1 e.2) n =
        values m n ++ if n = e.1 then [e.2] else [] := HttpCrate.values_append m e.1 n e.2
    change values (appendAll (HttpCrate.append m e.1 e.2) es) n = _
    rw [ih, hstep, valuesOf_cons, List.append_assoc]
    by_cases h : e.1 = n
    · simp [h]
    · simp [h, Ne.symm h]

/-- Inserting in a loop keeps the last value of each name. -/
theorem values_insertAll (m : HeaderMap) (es : List (HeaderName × HeaderValue))
    (n : HeaderName) : values (insertAll m es) n =
      match (valuesOf n es).getLast? with
      | some v => [v]
      | none => values m n := by
  induction es generalizing m with
  | nil => rfl
  | cons e es ih =>
    change values (insertAll (HttpCrate.insert m e.1 e.2) es) n = _
    rw [ih, valuesOf_cons]
    by_cases h : e.1 = n
    · subst h
      cases hlast : (valuesOf e.1 es).getLast? with
      | none => simp [List.getLast?_eq_none_iff.mp hlast]
      | some v => simp [List.getLast?_cons, hlast]
    · rw [if_neg h, List.nil_append, values_insert_ne _ _ (Ne.symm h)]

theorem values_insertAll_of_notMem (m : HeaderMap) {es : List (HeaderName × HeaderValue)}
    {n : HeaderName} (h : ∀ e ∈ es, e.1 ≠ n) : values (insertAll m es) n = values m n := by
  rw [values_insertAll, valuesOf_eq_nil h]
  rfl

end HeaderMap

section Messages
variable [HttpCrate]

/-- A body stream: the bytes it yields, and whether it then ends in an error. -/
structure Body where
  data : List UInt8
  failed : Bool

def Body.full (data : List UInt8) : Body := ⟨data, false⟩

def Body.collect (b : Body) : Option (List UInt8) := if b.failed then none else some b.data

structure Request where
  method : Method
  uri : Uri
  headers : HeaderMap
  body : Body

structure Response where
  status : StatusCode
  headers : HeaderMap
  body : Body

end Messages

section Instance

def splitUri (s : Str) : Option Uri :=
  match (stripPrefix s "http://".toList).or (stripPrefix s "https://".toList) with
  | some rest =>
    let authority := rest.takeWhile fun c => c != '/' && c != '?'
    let tail := rest.dropWhile fun c => c != '/' && c != '?'
    if authority.isEmpty then none
    else some ⟨some authority, some (if tail.isEmpty then "/".toList else tail)⟩
  | none => if startsWith s "/".toList then some ⟨none, some s⟩ else none

private def visibleText (s : Str) : Option Str := if s.all isVisible then some s else none

theorem encode_ascii : ∀ n < 128, (String.utf8EncodeChar (Char.ofNat n)).all isVisibleByte =
    isVisible (Char.ofNat n) ∧ textOf (String.utf8EncodeChar (Char.ofNat n)) = [Char.ofNat n] := by
  decide +kernel

theorem isVisibleByte_of_le {b : UInt8} (h : 128 ≤ b.toNat) : isVisibleByte b = false := by
  have hlarge : ¬ b < 127 := by
    rw [UInt8.lt_iff_toNat_lt]
    change ¬ b.toNat < 127
    omega
  have htab : b ≠ 9 := by
    rintro rfl
    exact absurd h (by decide)
  simp [isVisibleByte, hlarge, htab]

/-- The last byte of a character outside ASCII is not visible. -/
theorem encode_wide {c : Char} (h : 128 ≤ c.toNat) :
    (String.utf8EncodeChar c).all isVisibleByte = false := by
  have hlast : UInt8.ofNat (c.val.toNat % 64 + 128) ∈ String.utf8EncodeChar c := by
    have hv : ¬ c.val.toNat ≤ 127 := by
      change ¬ c.toNat ≤ 127
      omega
    unfold String.utf8EncodeChar
    dsimp only
    rw [if_neg hv]
    split
    · simp
    · split <;> simp
  rw [List.all_eq_false]
  refine ⟨_, hlast, ?_⟩
  rw [isVisibleByte_of_le]
  · decide
  · rw [UInt8.toNat_ofNat']
    omega

theorem encode_visible (c : Char) : (String.utf8EncodeChar c).all isVisibleByte = isVisible c := by
  by_cases hc : c.toNat < 128
  · have hascii := (encode_ascii c.toNat hc).1
    rwa [Char.ofNat_toNat] at hascii
  · have hwide : ¬ c.toNat < 127 := by omega
    have htab : c ≠ '\t' := by
      rintro rfl
      exact hc (by decide)
    rw [encode_wide (not_lt.mp hc)]
    simp [isVisible, hwide, htab]

theorem textOf_utf8 {s : Str} (h : s.all isVisible = true) : textOf (utf8 s) = s := by
  induction s with
  | nil => rfl
  | cons c s ih =>
    rw [List.all_cons, Bool.and_eq_true] at h
    have hc : c.toNat < 128 := by
      by_contra hwide
      rw [← encode_visible, encode_wide (not_lt.mp hwide)] at h
      cases h.1
    have hascii := (encode_ascii c.toNat hc).2
    rw [Char.ofNat_toNat] at hascii
    have hsplit : textOf (utf8 (c :: s)) = textOf (String.utf8EncodeChar c) ++ textOf (utf8 s) :=
      List.map_append
    rw [hsplit, hascii, ih h.2]
    rfl

theorem utf8_visible (s : Str) : (utf8 s).all isVisibleByte = s.all isVisible := by
  rw [utf8, List.all_flatMap]
  exact congrArg s.all (funext encode_visible)

theorem visibleText_eq (s : Str) : visibleText s =
    if (utf8 s).all isVisibleByte then some (textOf (utf8 s)) else none := by
  rw [utf8_visible]
  unfold visibleText
  split
  · next h => rw [textOf_utf8 h]
  · rfl

@[reducible] def listHttp : HttpCrate where
  HeaderValue := Str
  asBytes := utf8
  toStr := visibleText
  fromStr := visibleText
  fromStatic s := s
  HeaderMap := List (HeaderName × Str)
  empty := []
  insert m n v := m.filter (fun e => e.1 ≠ n) ++ [(n, v)]
  append m n v := m ++ [(n, v)]
  iter m := m
  canonicalReason s := if s.code = 502 then some "Bad Gateway".toList else none
  parseUri := splitUri
  ServerBuilder := ℕ × UInt32
  newBuilder := (64 * 1024, 16 * 1024)
  maxBufSize b size := if size < 8192 then .panicked else .returned (size, b.2)
  maxHeaderListSize b size := (b.1, size)
  bufSizeOf b := b.1
  headerListSizeOf b := b.2
  toStr_asBytes := visibleText_eq
  toStr_fromStatic h := by simp [visibleText, h]
  fromStr_visible h := by simp [visibleText, h]
  toStr_fromStr {s v} h := by
    unfold visibleText at h
    split at h
    · next hs =>
      cases h
      exact .inl (by simp [visibleText, hs])
    · cases h
  iter_empty := rfl
  values_insert m n k v := by
    have hfilter := valuesOf_filter k (fun name => decide (name ≠ n)) m
    rw [valuesOf_append, hfilter]
    by_cases h : k = n
    · simp [h, valuesOf]
    · simp [h, Ne.symm h, valuesOf]
  values_append m n k v := by
    rw [valuesOf_append]
    by_cases h : k = n
    · simp [h, valuesOf]
    · simp [h, Ne.symm h, valuesOf]
  canonicalReason_plain {s reason} h := by
    split at h
    · cases h
      decide
    · cases h
  maxBufSize_small b size h := if_pos h
  maxBufSize_large b size h := ⟨(size, b.2), if_neg (not_lt.mpr h), rfl⟩
  bufSizeOf_maxHeaderListSize _ _ := rfl
  headerListSizeOf_maxHeaderListSize _ _ := rfl

end Instance

end BarebonesProxy.Http

namespace BarebonesProxy.ListCrates

scoped instance http : Http.HttpCrate := Http.listHttp

end BarebonesProxy.ListCrates
