import BarebonesProxy.RustStrings

set_option autoImplicit false

/-!
# `std::net` addresses

The text forms follow `core::net`: `Display` as it prints and the recursive
descent parser behind `FromStr`. A reader takes the unread text and returns the
value with the text that is left; a failed reader leaves the text unread.
-/
namespace BarebonesProxy.RustNet
open RustStrings

structure Ipv4Addr where
  a : UInt8
  b : UInt8
  c : UInt8
  d : UInt8
deriving DecidableEq

structure Ipv6Addr where
  segments : List UInt16
  length_eq : segments.length = 8
deriving DecidableEq

inductive IpAddr where
  | v4 (addr : Ipv4Addr)
  | v6 (addr : Ipv6Addr)
deriving DecidableEq

structure SocketAddr where
  ip : IpAddr
  port : UInt16
deriving DecidableEq

def Ipv4Addr.display (x : Ipv4Addr) : Str :=
  natToString x.a.toNat ++ '.' :: natToString x.b.toNat ++ '.' :: natToString x.c.toNat ++
    '.' :: natToString x.d.toNat

structure Span where
  start : ℕ
  len : ℕ

def zeroSpan : List UInt16 → ℕ → Span → Span → Span
  | [], _, _, longest => longest
  | s :: rest, i, current, longest =>
    if s = 0 then
      let current : Span := ⟨if current.len = 0 then i else current.start, current.len + 1⟩
      zeroSpan rest (i + 1) current (if longest.len < current.len then current else longest)
    else zeroSpan rest (i + 1) ⟨0, 0⟩ longest

def displaySegments : List UInt16 → Str
  | [] => []
  | [s] => Nat.toDigits 16 s.toNat
  | s :: rest => Nat.toDigits 16 s.toNat ++ ':' :: displaySegments rest

def Ipv6Addr.toIpv4Mapped (x : Ipv6Addr) : Option Ipv4Addr :=
  match x.segments with
  | [0, 0, 0, 0, 0, 0xffff, g, h] =>
    some ⟨(g >>> 8).toUInt8, g.toUInt8, (h >>> 8).toUInt8, h.toUInt8⟩
  | _ => none

def Ipv6Addr.display (x : Ipv6Addr) : Str :=
  match x.toIpv4Mapped with
  | some v4 => "::ffff:".toList ++ v4.display
  | none =>
    let zeroes := zeroSpan x.segments 0 ⟨0, 0⟩ ⟨0, 0⟩
    if 1 < zeroes.len then
      displaySegments (x.segments.take zeroes.start) ++ "::".toList ++
        displaySegments (x.segments.drop (zeroes.start + zeroes.len))
    else displaySegments x.segments

def IpAddr.display : IpAddr → Str
  | .v4 x => x.display
  | .v6 x => x.display

def SocketAddr.display (a : SocketAddr) : Str :=
  match a.ip with
  | .v4 x => x.display ++ ":".toList ++ natToString a.port.toNat
  | .v6 x => "[".toList ++ x.display ++ "]:".toList ++ natToString a.port.toNat

abbrev Reader (α : Type) := Str → Option (α × Str)

def readGivenChar (c : Char) : Reader Unit
  | x :: rest => if x = c then some ((), rest) else none
  | [] => none

/-- `read_separator`: every item but the first is preceded by the separator. -/
def readSeparator {α : Type} (sep : Char) (index : ℕ) (inner : Reader α) : Reader α := fun s =>
  if index = 0 then inner s
  else (readGivenChar sep s).bind fun x => inner x.2

def digitOf (radix : ℕ) (c : Char) : Option ℕ :=
  let n := c.toNat
  let value :=
    if 48 ≤ n ∧ n ≤ 57 then some (n - 48)
    else if 97 ≤ n ∧ n ≤ 122 then some (n - 87)
    else if 65 ≤ n ∧ n ≤ 90 then some (n - 55)
    else none
  value.filter (· < radix)

def takeDigits (radix : ℕ) : Str → List ℕ × Str
  | [] => ([], [])
  | c :: rest =>
    match digitOf radix c with
    | none => ([], c :: rest)
    | some v =>
      let (ds, left) := takeDigits radix rest
      (v :: ds, left)

/-- `read_number`: the digit run must be non-empty, at most `maxDigits` long, without
a superfluous leading zero unless allowed, and fit the type. -/
def readNumber (radix maxDigits : ℕ) (allowZeroPrefix : Bool) (largest : ℕ) : Reader ℕ :=
  fun s =>
    let (ds, left) := takeDigits radix s
    let value := ds.foldl (fun n d => radix * n + d) 0
    if ds = [] ∨ maxDigits < ds.length ∨ largest < value then none
    else if allowZeroPrefix = false ∧ ds.head? = some 0 ∧ 1 < ds.length then none
    else some (value, left)

def readOctet (index : ℕ) : Reader ℕ :=
  readSeparator '.' index (readNumber 10 3 false 255)

def readIpv4Addr : Reader Ipv4Addr := fun s => do
  let (a, s) ← readOctet 0 s
  let (b, s) ← readOctet 1 s
  let (c, s) ← readOctet 2 s
  let (d, s) ← readOctet 3 s
  return (⟨UInt8.ofNat a, UInt8.ofNat b, UInt8.ofNat c, UInt8.ofNat d⟩, s)

/-- `read_groups`: up to `limit - i` colon separated groups from index `i`, the last
two possibly as an IPv4 address; the flag says that they were. -/
def readGroups (limit : ℕ) : ℕ → ℕ → Str → List UInt16 × Bool × Str
  | 0, _, s => ([], false, s)
  | fuel + 1, i, s =>
    let embedded := if i + 1 < limit then readSeparator ':' i readIpv4Addr s else none
    match embedded with
    | some (v4, left) =>
      ([UInt16.ofNat (256 * v4.a.toNat + v4.b.toNat),
        UInt16.ofNat (256 * v4.c.toNat + v4.d.toNat)], true, left)
    | none =>
      match readSeparator ':' i (readNumber 16 4 true 0xffff) s with
      | none => ([], false, s)
      | some (g, left) =>
        let (gs, flag, left) := readGroups limit fuel (i + 1) left
        (UInt16.ofNat g :: gs, flag, left)

def ipv6OfSegments (segments : List UInt16) : Option Ipv6Addr :=
  if h : segments.length = 8 then some ⟨segments, h⟩ else none

def readIpv6Addr : Reader Ipv6Addr := fun s =>
  let (head, headIpv4, left) := readGroups 8 8 0 s
  if head.length = 8 then (ipv6OfSegments head).map (·, left)
  else if headIpv4 then none
  else do
    let (_, s) ← readGivenChar ':' left
    let (_, s) ← readGivenChar ':' s
    let limit := 8 - (head.length + 1)
    let (tail, _, s) := readGroups limit limit 0 s
    let zeroes := List.replicate (8 - head.length - tail.length) 0
    (ipv6OfSegments (head ++ zeroes ++ tail)).map (·, s)

def parseWith {α : Type} (reader : Reader α) (s : Str) : Option α :=
  match reader s with
  | some (x, []) => some x
  | _ => none

def Ipv4Addr.parse (s : Str) : Option Ipv4Addr :=
  if 15 < s.length then none else parseWith readIpv4Addr s

def readIpAddr : Reader IpAddr := fun s =>
  match readIpv4Addr s with
  | some (x, left) => some (.v4 x, left)
  | none => (readIpv6Addr s).map fun x => (.v6 x.1, x.2)

def IpAddr.parse (s : Str) : Option IpAddr := parseWith readIpAddr s

example : IpAddr.parse "2001:db8::1:0.0.0.2".toList =
    some (.v6 ⟨[0x2001, 0xdb8, 0, 0, 0, 1, 0, 2], rfl⟩) := by decide

example : (IpAddr.parse "2001:DB8:0:0:1:0:0:2".toList).map IpAddr.display =
    some "2001:db8::1:0:0:2".toList := by decide

end BarebonesProxy.RustNet
