import BarebonesProxy.Http
import BarebonesProxy.LruMap
import BarebonesProxy.RustState

set_option autoImplicit false

/-!
# The response cache of `cache.rs`

The engine keeps an LRU map and, beside it, a counter of the bytes held. The clock
reading of `get` and `insert` is the argument `now`.
-/
namespace BarebonesProxy.Cache
open RustStrings RustState Http LruMap

section Engine
variable [HttpCrate]

structure CachedAsset where
  status : StatusCode
  headers : HeaderMap
  body : List UInt8
  createdAt : ℕ
  ttl : ℕ
  sizeBytes : ℕ

def CachedAsset.isExpired (a : CachedAsset) (now : ℕ) : Bool :=
  decide (a.ttl ≤ durationSince now a.createdAt)

structure InsertResult where
  inserted : Bool
  bytesInserted : ℕ
  bytesEvicted : ℕ
  itemsEvicted : ℕ
  reason : Option Str
deriving DecidableEq

variable [LruCrate]

structure LruCacheEngine where
  inner : Lock (LruCache Str CachedAsset)
  maxCapacityBytes : ℕ
  maxFileSizeBytes : ℕ
  defaultTtl : ℕ
  currentMemoryBytes : Lock ℕ

def itemCapacity : ℕ := 10000

def LruCacheEngine.new (maxCapacityBytes maxFileSizeBytes defaultTtlSec : ℕ) : LruCacheEngine where
  inner := Lock.new (LruCrate.new itemCapacity (by decide))
  maxCapacityBytes := maxCapacityBytes
  maxFileSizeBytes := maxFileSizeBytes
  defaultTtl := fromSecs defaultTtlSec
  currentMemoryBytes := Lock.new 0

def LruCacheEngine.get (engine : LruCacheEngine) (now : ℕ) (key : Str) :
    Option CachedAsset × LruCacheEngine :=
  match engine.inner.write with
  | none => (none, engine)
  | some guard =>
    match LruCrate.getMut guard key with
    | (none, guard) => (none, { engine with inner := ⟨guard, false⟩ })
    | (some item, guard) =>
      if item.isExpired now then
        let guard := (LruCrate.pop guard key).2
        let memory := match engine.currentMemoryBytes.write with
          | some mem => ⟨mem - item.sizeBytes, false⟩
          | none => engine.currentMemoryBytes
        (none, { engine with inner := ⟨guard, false⟩, currentMemoryBytes := memory })
      else (some item, { engine with inner := ⟨guard, false⟩ })

/-- The two guards and the two tallies of the eviction loop. -/
structure Eviction where
  guard : LruCache Str CachedAsset
  mem : ℕ
  bytesEvicted : ℕ
  itemsEvicted : ℕ

/-- The `while` loop of `insert`. Each round pops an entry, so the number of entries is
enough fuel. -/
def evict (maxCapacityBytes sizeBytes : ℕ) : ℕ → Eviction → Eviction
  | 0, e => e
  | fuel + 1, e =>
    if maxCapacityBytes < wrappingAdd e.mem sizeBytes ∧ LruCrate.entries e.guard ≠ [] then
      match LruCrate.popLru e.guard with
      | (some (_, item), guard) =>
        evict maxCapacityBytes sizeBytes fuel
          ⟨guard, e.mem - item.sizeBytes, wrappingAdd e.bytesEvicted item.sizeBytes,
            wrappingAdd e.itemsEvicted 1⟩
      | (none, guard) => { e with guard }
    else e

private def refused (reason : Str) : InsertResult := ⟨false, 0, 0, 0, some reason⟩

def LruCacheEngine.insert (engine : LruCacheEngine) (now : ℕ) (key : Str) (status : StatusCode)
    (headers : HeaderMap) (body : List UInt8) (ttlOverride : Option ℕ) :
    InsertResult × LruCacheEngine :=
  let sizeBytes := body.length
  if engine.maxFileSizeBytes < sizeBytes then
    (refused "exceeds_max_file_size".toList, engine)
  else if engine.maxCapacityBytes < sizeBytes then
    (refused "exceeds_max_capacity".toList, engine)
  else
    let asset : CachedAsset := ⟨status, headers, body, now, ttlOverride.getD engine.defaultTtl, sizeBytes⟩
    match engine.inner.write, engine.currentMemoryBytes.write with
    | none, _ | _, none => (refused "lock_error".toList, engine)
    | some guard, some mem =>
      let e := evict engine.maxCapacityBytes sizeBytes (LruCrate.entries guard).length
        ⟨guard, mem, 0, 0⟩
      if wrappingAdd e.mem sizeBytes ≤ engine.maxCapacityBytes then
        let put := LruCrate.put e.guard key asset
        let mem := match put.1 with
          | some old => e.mem - old.sizeBytes
          | none => e.mem
        (⟨true, sizeBytes, e.bytesEvicted, e.itemsEvicted, none⟩,
          { engine with
            inner := ⟨put.2, false⟩
            currentMemoryBytes := ⟨wrappingAdd mem sizeBytes, false⟩ })
      else
        (⟨false, 0, e.bytesEvicted, e.itemsEvicted, some "capacity_full_after_eviction".toList⟩,
          { engine with
            inner := ⟨e.guard, false⟩
            currentMemoryBytes := ⟨e.mem, false⟩ })

inductive CacheCall where
  | get (time : ℕ) (key : Str)
  | insert (time : ℕ) (key : Str) (status : StatusCode) (headers : HeaderMap)
      (body : List UInt8) (ttlOverride : Option ℕ)

def CacheCall.run (engine : LruCacheEngine) : CacheCall → LruCacheEngine
  | .get time key => (engine.get time key).2
  | .insert time key status headers body ttlOverride =>
    (engine.insert time key status headers body ttlOverride).2

def LruCacheEngine.after (engine : LruCacheEngine) (calls : List CacheCall) : LruCacheEngine :=
  calls.foldl CacheCall.run engine

end Engine

section StaticAssets
variable [CaseMapping]

def isUncacheableEntrypoint (path : Str) : Bool :=
  let lowerPath := CaseMapping.toLowercase path
  endsWith lowerPath "sw.js".toList
    || contains lowerPath "service-worker".toList
    || contains lowerPath "registersw".toList
    || contains lowerPath "workbox".toList
    || endsWith lowerPath ".webmanifest".toList
    || endsWith lowerPath ".html".toList
    || lowerPath == "/".toList

def staticExtensions : List Str :=
  [".css", ".js", ".png", ".jpg", ".jpeg", ".svg", ".ico", ".woff2", ".woff", ".ttf", ".webp",
    ".json", ".wasm"].map String.toList

def staticContentTypes : List Str :=
  ["text/css", "application/javascript", "text/javascript", "image/", "font/",
    "application/wasm"].map String.toList

def isStaticAsset (path : Str) (contentType : Option Str) : Bool :=
  if isUncacheableEntrypoint path then false
  else if staticExtensions.any (endsWith (CaseMapping.toLowercase path)) then true
  else match contentType with
    | some ct =>
      let ctLower := CaseMapping.toLowercase ct
      if contains ctLower "text/html".toList then false
      else staticContentTypes.any (contains ctLower)
    | none => false

end StaticAssets

end BarebonesProxy.Cache
