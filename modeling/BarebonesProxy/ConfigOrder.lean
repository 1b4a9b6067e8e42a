import BarebonesProxy.ConfigEntries
import Mathlib.Data.List.Nodup

set_option autoImplicit false

/-!
# The order of a configuration does not matter

Settings of different names commute, and so do entries unless both are routes: of those the
order is kept in the configuration.
-/
namespace BarebonesProxy.ConfigParser
open RustStrings RustNet ProxyConfig GuardedWrites

section Reordering

namespace Item

/-- The same item up to the order of its lines. -/
def Same : Item → Item → Prop
  | .line text, .line text' => text = text'
  | .block header body closer, .block header' body' closer' =>
    header = header' ∧ body.Perm body' ∧ closer = closer'
  | _, _ => False

def isRoute : Item → Bool
  | .line _ => false
  | .block header _ _ => nameOf header = "route".toList

end Item

/-- The same items in another order, with the route blocks in the same order. -/
def Reordered (items items' : List Item) : Prop :=
  ∃ middle, items.Perm middle ∧ middle.filter Item.isRoute = items.filter Item.isRoute ∧
    List.Forall₂ Item.Same middle items'

end Reordering

section Blocks

theorem RouteSetting.exchange {v w : RouteSetting} (h : v.name ≠ w.name) :
    Exchange (write taken set) v w := by
  cases v <;> cases w <;> first
    | exact write_exchange (fun _ => rfl) (fun _ => rfl) (fun _ => rfl)
    | exact absurd rfl h

theorem SecuritySetting.exchange {v w : SecuritySetting} (h : v.name ≠ w.name) :
    Exchange (write taken set) v w := by
  cases v <;> cases w <;> first
    | exact write_exchange (fun _ => rfl) (fun _ => rfl) (fun _ => rfl)
    | exact absurd rfl h

theorem CacheSetting.exchange {v w : CacheSetting} (h : v.name ≠ w.name) :
    Exchange (write taken set) v w := by
  cases v <;> cases w <;> first
    | exact write_exchange (fun _ => rfl) (fun _ => rfl) (fun _ => rfl)
    | exact absurd rfl h

variable {σ ι : Type} {setting : Str → Str → Option ι} {taken : ι → σ → Bool} {set : ι → σ → σ}

theorem foldlM_body_perm {name : ι → Str} {keyword : Str}
    (hname : ∀ {n value v}, setting n value = some v → name v = canonical keyword n)
    (hcomm : ∀ {v w}, name v ≠ name w → Exchange (write taken set) v w) {body body' : List Str}
    (hperm : body.Perm body')
    (honce : (body.map fun line => canonical keyword (nameOf line)).Nodup) (s : σ) :
    body.foldlM (applyLine setting taken set) s = body'.foldlM (applyLine setting taken set) s := by
  refine foldlM_perm hperm (fun x hx y hy => ?_) s
  by_cases hne : x = y
  · rw [hne]
    exact Exchange.refl y
  · refine Exchange.of_read fun v w hv hw => hcomm fun heq => hne ?_
    obtain ⟨_, -, hsettingX⟩ := readLine_eq_some hv
    obtain ⟨_, -, hsettingY⟩ := readLine_eq_some hw
    rw [hname hsettingX, hname hsettingY] at heq
    exact List.inj_on_of_nodup_map honce hx hy heq

theorem blockEntry_perm {header : Str} {body body' : List Str} (hperm : body.Perm body')
    (honce : (body.map fun line => canonical (nameOf header) (nameOf line)).Nodup) :
    blockEntry header body = blockEntry header body' := by
  unfold blockEntry
  split_ifs with hroute hsecurity hcache
  · rw [hroute] at honce
    unfold routeBlock
    rw [foldlM_body_perm (fun h => (routeSetting_name h).1) RouteSetting.exchange hperm honce]
  · rw [hsecurity] at honce
    unfold securityBlock
    rw [foldlM_body_perm (fun h => (securitySetting_name h).1) SecuritySetting.exchange hperm honce]
  · rw [hcache] at honce
    unfold cacheBlock
    rw [foldlM_body_perm (fun h => (cacheSetting_name h).1) CacheSetting.exchange hperm honce]
  · rfl

theorem Item.Same.read {item item' : Item} (hsame : item.Same item') (honce : item.Once) :
    item.read = item'.read := by
  cases item with
  | line text =>
    cases item' with
    | line text' => rw [show text = text' from hsame]
    | block _ _ _ => cases hsame
  | block header body closer =>
    cases item' with
    | line _ => cases hsame
    | block header' body' closer' =>
      obtain ⟨rfl, hperm, rfl⟩ := hsame
      change (closer.bind fun _ => blockEntry header body) =
        closer.bind fun _ => blockEntry header body'
      rw [blockEntry_perm hperm honce]

end Blocks

section Document

/-- Two entries can change places unless both are routes. -/
theorem Entry.exchange {v w : Entry} (h : v.routes = [] ∨ w.routes = []) :
    Exchange (write taken set) v w := by
  cases v <;> cases w <;> first
    | exact write_exchange (fun _ => rfl) (fun _ => rfl) (fun _ => rfl)
    | exact write_exchange_of_taken (fun _ => rfl) (fun _ => rfl)
    | exact absurd h (by simp [routes])

theorem routes_of_isRoute {item : Item} {entry : Entry} (h : item.read = some entry)
    (hroute : item.isRoute = false) : entry.routes = [] := by
  cases entry with
  | route route =>
    obtain ⟨header, body, closer, rfl, -⟩ := read_route h
    have hname : nameOf header = "route".toList := read_keyword h
    exact absurd (decide_eq_true hname) (Bool.eq_false_iff.mp hroute)
  | listen _ | logfile _ | interceptErrors _ | workers _ | security _ | cache _ => rfl

theorem foldlM_same {items items' : List Item} (hsame : List.Forall₂ Item.Same items items')
    (honce : ∀ item ∈ items, item.Once) (s : Items) :
    items.foldlM Item.apply s = items'.foldlM Item.apply s := by
  induction hsame generalizing s with
  | nil => rfl
  | cons hfirst _ ih =>
    rw [List.foldlM_cons, List.foldlM_cons]
    unfold Item.apply
    rw [hfirst.read (honce _ (.head _))]
    congr 1
    funext s'
    exact ih (fun item hitem => honce item (.tail _ hitem)) s'

theorem foldlM_reordered_items {items items' : List Item} (hsame : Reordered items items')
    (honce : ∀ item ∈ items, item.Once) (s : Items) :
    items.foldlM Item.apply s = items'.foldlM Item.apply s := by
  obtain ⟨middle, hperm, horder, hlines⟩ := hsame
  calc items.foldlM Item.apply s = middle.foldlM Item.apply s := by
        refine foldlM_reordered Item.isRoute hperm horder (fun x _ y _ hroute => ?_) s
        refine Exchange.of_read fun v w hv hw => Entry.exchange ?_
        exact hroute.imp (routes_of_isRoute hv) (routes_of_isRoute hw)
    _ = items'.foldlM Item.apply s :=
        foldlM_same hlines (fun item hitem => honce item (hperm.mem_iff.mpr hitem)) s

variable [CaseMapping]

theorem parse_reordered {availableParallelism : Option ℕ} {input input' : Str}
    (hsame : Reordered (itemsOf (configLines input)) (itemsOf (configLines input')))
    (honce : ∀ item ∈ itemsOf (configLines input), item.Once) (config : Config) :
    parseProxyConfig availableParallelism input = .ok config ↔
      parseProxyConfig availableParallelism input' = .ok config := by
  rw [parseProxyConfig_ok_iff, parseProxyConfig_ok_iff, foldlM_reordered_items hsame honce]

end Document

section Example
open ListCrates

def portFirst : Str :=
  "listen 80;\nroute / \x7b\nforward b:1;\ncache off;\n\x7d\nroute /x \x7b\nupstream b:2;\n\x7d\nworkers 2;".toList

def portLast : Str :=
  "workers 2;\nroute / \x7b\ncache off;\nforward b:1;\n\x7d\nroute /x \x7b\nupstream b:2;\n\x7d\nlisten 80;".toList

def portSite : Config :=
  { listenPort := 80
    routes := [⟨"/".toList, "b:1".toList, false, none, none, some false, none⟩,
      ⟨"/x".toList, "b:2".toList, false, none, none, none, none⟩]
    workers := 2
    logfile := none
    security := none
    cache := none
    interceptErrors := none }

theorem portSite_reordered :
    parseProxyConfig none portFirst = .ok portSite ∧ parseProxyConfig none portLast = .ok portSite := by
  have hfirst : itemsOf (configLines portFirst) =
      [.line "listen 80;".toList,
        .block "route / \x7b".toList ["forward b:1;".toList, "cache off;".toList] (some "\x7d".toList),
        .block "route /x \x7b".toList ["upstream b:2;".toList] (some "\x7d".toList),
        .line "workers 2;".toList] := by decide +kernel
  have hlast : itemsOf (configLines portLast) =
      [.line "workers 2;".toList,
        .block "route / \x7b".toList ["cache off;".toList, "forward b:1;".toList] (some "\x7d".toList),
        .block "route /x \x7b".toList ["upstream b:2;".toList] (some "\x7d".toList),
        .line "listen 80;".toList] := by decide +kernel
  have hsame : Reordered (itemsOf (configLines portFirst)) (itemsOf (configLines portLast)) := by
    rw [hfirst, hlast]
    refine ⟨[.line "workers 2;".toList,
      .block "route / \x7b".toList ["forward b:1;".toList, "cache off;".toList] (some "\x7d".toList),
      .block "route /x \x7b".toList ["upstream b:2;".toList] (some "\x7d".toList),
      .line "listen 80;".toList], by decide +kernel, by decide +kernel, ?_⟩
    refine .cons rfl (.cons ⟨rfl, .swap .., rfl⟩ (.cons ⟨rfl, .refl _, rfl⟩ (.cons rfl .nil)))
  have honce : ∀ item ∈ itemsOf (configLines portFirst), item.Once := by
    rw [hfirst]
    decide +kernel
  have hparse : parseProxyConfig none portFirst = .ok portSite :=
    toOption_eq_some_iff.mp (by decide +kernel)
  exact ⟨hparse, (parse_reordered hsame honce portSite).mp hparse⟩

end Example

end BarebonesProxy.ConfigParser
