import BarebonesProxy.Cache

set_option autoImplicit false

/-!
# Static assets and query strings

`is_static_asset` gets the path with its query. The tests for an ending then see the end of
the query in place of that of the path, and the tests for a name see both.
-/
namespace BarebonesProxy.Cache
open RustStrings

section Separated
variable {α : Type} {sep : α} {p s t : List α}

theorem suffix_append_cons_iff (h : sep ∉ p) : p <:+ s ++ sep :: t ↔ p <:+ t := by
  constructor
  · intro hp
    rcases List.suffix_or_suffix_of_suffix hp (List.suffix_append s (sep :: t)) with hp | hp
    · rcases List.suffix_cons_iff.mp hp with rfl | hp
      · exact absurd (.head _) h
      · exact hp
    · exact absurd (hp.subset (.head _)) h
  · intro hp
    exact hp.trans ((List.suffix_cons sep t).trans (List.suffix_append s _))

theorem infix_append_cons_iff (h : sep ∉ p) : p <:+: s ++ sep :: t ↔ p <:+: s ∨ p <:+: t := by
  constructor
  · rintro ⟨before, after, heq⟩
    rcases List.append_eq_append_iff.mp heq with ⟨more, rfl, -⟩ | ⟨more, hsplit, hrest⟩
    · exact .inl ⟨before, more, rfl⟩
    · match more with
      | [] =>
        rw [List.append_nil] at hsplit
        exact .inl ⟨before, [], by rw [List.append_nil]; exact hsplit⟩
      | c :: more =>
        obtain ⟨rfl, rfl⟩ := List.cons.inj hrest
        have hsuffix : p <:+ s ++ sep :: more := ⟨before, hsplit⟩
        exact .inr (((suffix_append_cons_iff h).mp hsuffix).isInfix.trans
          (List.prefix_append more after).isInfix)
  · rintro (hp | hp)
    · exact hp.trans (List.prefix_append s _).isInfix
    · exact hp.trans ((List.suffix_cons sep t).trans (List.suffix_append s _)).isInfix

end Separated

section Classes

def endsAsEntrypoint (lower : Str) : Bool :=
  ["sw.js", ".webmanifest", ".html"].any fun ending => endsWith lower ending.toList

def namesServiceWorker (lower : Str) : Bool :=
  ["service-worker", "registersw", "workbox"].any fun name => contains lower name.toList

def hasStaticExtension (lower : Str) : Bool := staticExtensions.any (endsWith lower)

variable [CaseMapping]

def hasStaticType (contentType : Option Str) : Bool :=
  match contentType with
  | some ct => !contains (toLowercase ct) "text/html".toList &&
      staticContentTypes.any (contains (toLowercase ct))
  | none => false

theorem isUncacheableEntrypoint_eq (path : Str) :
    isUncacheableEntrypoint path = (namesServiceWorker (toLowercase path) ||
      (endsAsEntrypoint (toLowercase path) || toLowercase path == "/".toList)) := by
  unfold isUncacheableEntrypoint namesServiceWorker endsAsEntrypoint
  simp only [List.any_cons, List.any_nil, Bool.or_false]
  ac_rfl

theorem isStaticAsset_eq (path : Str) (contentType : Option Str) :
    isStaticAsset path contentType = (!isUncacheableEntrypoint path &&
      (hasStaticExtension (toLowercase path) || hasStaticType contentType)) := by
  unfold isStaticAsset hasStaticExtension hasStaticType
  cases isUncacheableEntrypoint path with
  | true => rfl
  | false =>
    cases staticExtensions.any (endsWith (toLowercase path)) with
    | true => rfl
    | false =>
      cases contentType with
      | none => rfl
      | some ct =>
        dsimp only
        cases contains (toLowercase ct) "text/html".toList <;> rfl

end Classes

section Queries

theorem endsWith_query {p : Str} (h : '?' ∉ p) (s t : Str) :
    endsWith (s ++ '?' :: t) p = endsWith t p := by
  rw [Bool.eq_iff_iff]
  unfold endsWith
  rw [List.isSuffixOf_iff_suffix, List.isSuffixOf_iff_suffix, suffix_append_cons_iff h]

theorem contains_query {p : Str} (h : '?' ∉ p) (s t : Str) :
    contains (s ++ '?' :: t) p = (contains s p || contains t p) := by
  rw [Bool.eq_iff_iff, Bool.or_eq_true, contains_iff, contains_iff, contains_iff,
    infix_append_cons_iff h]

theorem endsAsEntrypoint_query (s t : Str) :
    endsAsEntrypoint (s ++ '?' :: t) = endsAsEntrypoint t := by
  unfold endsAsEntrypoint
  simp (disch := decide) only [List.any_cons, List.any_nil, endsWith_query]

theorem namesServiceWorker_query (s t : Str) :
    namesServiceWorker (s ++ '?' :: t) = (namesServiceWorker s || namesServiceWorker t) := by
  unfold namesServiceWorker
  simp (disch := decide) only [List.any_cons, List.any_nil, Bool.or_false, contains_query]
  ac_rfl

theorem hasStaticExtension_query (s t : Str) :
    hasStaticExtension (s ++ '?' :: t) = hasStaticExtension t := by
  have hplain : ∀ ending ∈ staticExtensions, '?' ∉ ending := by decide
  unfold hasStaticExtension
  rw [Bool.eq_iff_iff, List.any_eq_true, List.any_eq_true]
  refine exists_congr fun ending => and_congr_right fun hmem => ?_
  rw [endsWith_query (hplain ending hmem)]

variable [CaseMapping]

/-- The class of a path by its own ending. -/
def pathAllows (lower : Str) (contentType : Option Str) : Bool :=
  !(endsAsEntrypoint lower || lower == "/".toList) &&
    (hasStaticExtension lower || hasStaticType contentType)

/-- The class that the text of a query gives to any path before it. -/
def queryAllows (lower : Str) (contentType : Option Str) : Bool :=
  !(endsAsEntrypoint lower || namesServiceWorker lower) &&
    (hasStaticExtension lower || hasStaticType contentType)

theorem isStaticAsset_path (path : Str) (contentType : Option Str) :
    isStaticAsset path contentType =
      (!namesServiceWorker (toLowercase path) && pathAllows (toLowercase path) contentType) := by
  rw [isStaticAsset_eq, isUncacheableEntrypoint_eq, pathAllows, Bool.not_or, Bool.and_assoc]

theorem isStaticAsset_query (path query : Str) (contentType : Option Str) :
    isStaticAsset (path ++ '?' :: query) contentType =
      (!namesServiceWorker (toLowercase path) && queryAllows (toLowercase query) contentType) := by
  have hroot : (toLowercase path ++ '?' :: toLowercase query == "/".toList) = false := by
    rw [beq_eq_false_iff_ne]
    intro heq
    have hmem : '?' ∈ "/".toList := heq ▸ List.mem_append_right _ (.head _)
    exact absurd hmem (by decide)
  rw [isStaticAsset_path, toLowercase_question, namesServiceWorker_query, pathAllows,
    endsAsEntrypoint_query, hasStaticExtension_query, hroot, Bool.or_false, queryAllows,
    Bool.not_or, Bool.not_or, Bool.and_assoc, Bool.and_assoc]
  ac_rfl

/-- A query changes nothing exactly if the path names a service worker, or the query by
itself gets the class that the path has. -/
theorem query_ignored_iff (path query : Str) (contentType : Option Str) :
    isStaticAsset (path ++ '?' :: query) contentType = isStaticAsset path contentType ↔
      namesServiceWorker (toLowercase path) = true ∨
        queryAllows (toLowercase query) contentType = pathAllows (toLowercase path) contentType := by
  rw [isStaticAsset_query, isStaticAsset_path]
  cases namesServiceWorker (toLowercase path) with
  | true => simp
  | false => simp

end Queries

section Example
open ListCrates

def scriptType : Option Str := some "application/javascript".toList

/-- With a query a service worker becomes an asset and a style sheet stops being one, and a
query that ends like an asset makes one of any path. -/
theorem query_decides :
    isStaticAsset "/sw.js".toList scriptType = false ∧
      isStaticAsset ("/sw.js".toList ++ '?' :: "v=1".toList) scriptType = true ∧
      isStaticAsset "/app.css".toList none = true ∧
      isStaticAsset ("/app.css".toList ++ '?' :: "v=1".toList) none = false ∧
      isStaticAsset "/api/report".toList none = false ∧
      isStaticAsset ("/api/report".toList ++ '?' :: "as=x.css".toList) none = true := by
  decide +kernel

end Example

end BarebonesProxy.Cache
