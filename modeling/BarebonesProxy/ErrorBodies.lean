import BarebonesProxy.AddressTexts
import BarebonesProxy.HtmlText
import BarebonesProxy.JsonText
import BarebonesProxy.Proxy

set_option autoImplicit false

/-!
# The host in an error body

`build_error_response` formats the host into a JSON text or an HTML page. Neither place is
escaped, so the host is data there only if it has no character that the language gives a
meaning to.
-/
namespace BarebonesProxy.ErrorPages
open RustStrings RustNet Http QuotedText JsonText HtmlText

section Messages
variable [HttpCrate]

/-- A character that means itself in a JSON string and in the text of a page. -/
def isQuiet (c : Char) : Bool := isPlain c && c != '<'

omit [HttpCrate] in
theorem quiet_literal {chars : Str} (h : chars.all isQuiet = true) :
    ∀ c ∈ (String.ofList chars).toList, isQuiet c = true :=
  of_chars (fun s => ∀ c ∈ s, isQuiet c = true) (List.all_eq_true.mp h)

omit [HttpCrate] in
theorem isQuiet_of_isReasonChar {c : Char} (hc : isReasonChar c = true) : isQuiet c = true := by
  have hlow : 32 ≤ c.toNat := by
    unfold isReasonChar at hc
    simp only [Bool.or_eq_true, Bool.and_eq_true, decide_eq_true_eq] at hc
    obtain (hlower | hupper) | hother := hc
    · exact le_trans (by decide : 32 ≤ 97) hlower.1
    · exact le_trans (by decide : 32 ≤ 65) hupper.1
    · simp only [List.contains_iff_mem, String.reduceToList, List.mem_cons, List.not_mem_nil,
        or_false] at hother
      obtain rfl | rfl | rfl := hother
      all_goals decide
  unfold isQuiet isPlain
  simp only [Bool.and_eq_true, decide_eq_true_eq, bne_iff_ne]
  refine ⟨⟨⟨hlow, ?_⟩, ?_⟩, ?_⟩
  all_goals
    rintro rfl
    exact absurd hc (by decide)

theorem reasonOf_quiet (status : StatusCode) : ∀ c ∈ reasonOf status, isQuiet c = true := by
  unfold reasonOf
  cases hreason : HttpCrate.canonicalReason status with
  | none => exact List.all_eq_true.mp (by decide)
  | some reason =>
    intro c hc
    have hplain := HttpCrate.canonicalReason_plain hreason
    exact isQuiet_of_isReasonChar (List.all_eq_true.mp hplain c hc)

theorem ErrorMessage.text_quiet (message : ErrorMessage) : ∀ c ∈ message.text, isQuiet c = true := by
  cases message with
  | noForwardAuth =>
    unfold ErrorMessage.text
    rw [String.toList_append]
    exact List.forall_mem_append.mpr ⟨quiet_literal (by decide), quiet_literal (by decide)⟩
  | upstream status =>
    exact List.forall_mem_append.mpr ⟨quiet_literal (by decide), reasonOf_quiet status⟩
  | _ => exact quiet_literal (by decide)

omit [HttpCrate] in
theorem plain_of_quiet {s : Str} (h : ∀ c ∈ s, isQuiet c = true) : ∀ c ∈ s, isPlain c = true :=
  fun c hc => (Bool.and_eq_true_iff.mp (h c hc)).1

omit [HttpCrate] in
theorem text_of_quiet {s : Str} (h : ∀ c ∈ s, isQuiet c = true) : ∀ c ∈ s, c ≠ '<' :=
  fun c hc => bne_iff_ne.mp (Bool.and_eq_true_iff.mp (h c hc)).2

end Messages

section Code

/-- The first digit of a status code is not zero. -/
theorem natToString_code (status : StatusCode) :
    ∃ d digits, natToString status.code = d :: digits ∧ d ≠ '0' ∧
      ∀ c ∈ d :: digits, isDigit c = true := by
  obtain ⟨d, digits, htext⟩ := List.exists_cons_of_ne_nil (natToString_ne_nil status.code)
  refine ⟨d, digits, htext, ?_, ?_⟩
  · rintro rfl
    have hzero : status.code = 0 := eq_zero_of_head_natToString (htext ▸ rfl)
    have hlow := status.valid.1
    omega
  · intro c hc
    rw [← htext] at hc
    obtain ⟨hlow, hhigh⟩ := isAsciiDigit_iff.mp (isAsciiDigit_of_mem_natToString hc)
    unfold isDigit
    rw [Bool.and_eq_true, decide_eq_true_iff, decide_eq_true_iff]
    exact ⟨hlow, hhigh⟩

end Code

section JsonBodies
variable [HttpCrate]

/-- The object that the error body stands for. -/
def errorObject (status : StatusCode) (message host : Str) : Json :=
  .object [("status".toList, .number (natToString status.code)),
    ("error".toList, .string (reasonOf status)), ("message".toList, .string message),
    ("host".toList, .string (displayed host))]

def hostMember (host : Str) : Str :=
  '"' :: ("host".toList ++ '"' :: ':' :: '"' :: (displayed host ++ '"' :: ['\x7d', '\n']))

def messageMember (message host : Str) : Str :=
  '"' :: ("message".toList ++ '"' :: ':' :: '"' :: (message ++ '"' :: ',' :: hostMember host))

def errorMember (status : StatusCode) (message host : Str) : Str :=
  '"' :: ("error".toList ++ '"' :: ':' :: '"' ::
    (reasonOf status ++ '"' :: ',' :: messageMember message host))

/-- The body with its members one inside the tail of the other. -/
theorem jsonBody_eq (status : StatusCode) (message host : Str) :
    jsonBody status message host =
      '\x7b' :: '"' :: ("status".toList ++ '"' :: ':' ::
        (natToString status.code ++ ',' :: errorMember status message host)) := by
  have hstatus : "\x7b\"status\":".toList = '\x7b' :: '"' :: ("status".toList ++ ['"', ':']) := rfl
  have herror : ",\"error\":\"".toList = ',' :: '"' :: ("error".toList ++ ['"', ':', '"']) := rfl
  have hmessage : "\",\"message\":\"".toList =
      '"' :: ',' :: '"' :: ("message".toList ++ ['"', ':', '"']) := rfl
  have hhost : "\",\"host\":\"".toList = '"' :: ',' :: '"' :: ("host".toList ++ ['"', ':', '"']) := rfl
  have hclose : "\"\x7d\n".toList = ['"', '\x7d', '\n'] := rfl
  unfold jsonBody errorMember messageMember hostMember
  rw [hstatus, herror, hmessage, hhost, hclose]
  simp only [List.append_assoc, List.cons_append, List.nil_append]

/-- The first three members are read whatever the host is. -/
theorem readList_jsonBody (status : StatusCode) (message : ErrorMessage) (host : Str) (fuel : ℕ) :
    readList (readMember (readValue (fuel + 4))) '\x7d' (fuel + 4)
        ('"' :: ("status".toList ++ '"' :: ':' ::
          (natToString status.code ++ ',' :: errorMember status message.text host))) =
      (readList (readMember (readValue (fuel + 4))) '\x7d' (fuel + 1) (hostMember host)).map fun y =>
        (("status".toList, .number (natToString status.code)) ::
          ("error".toList, .string (reasonOf status)) ::
          ("message".toList, .string message.text) :: y.1, y.2) := by
  have hstatusKey : ∀ c ∈ "status".toList, isPlain c = true := List.all_eq_true.mp (by decide)
  have herrorKey : ∀ c ∈ "error".toList, isPlain c = true := List.all_eq_true.mp (by decide)
  have hmessageKey : ∀ c ∈ "message".toList, isPlain c = true := List.all_eq_true.mp (by decide)
  obtain ⟨d, digits, hcode, hd, hdigits⟩ := natToString_code status
  rw [hcode]
  have hstatus := readMember_digits hstatusKey hd hdigits (fuel + 3)
    (errorMember status message.text host)
  have herror : readMember (readValue (fuel + 4)) (errorMember status message.text host) = _ :=
    readMember_string herrorKey (plain_of_quiet (reasonOf_quiet status))
      (fuel + 3) (',' :: messageMember message.text host)
  have hmessage : readMember (readValue (fuel + 4)) (messageMember message.text host) = _ :=
    readMember_string hmessageKey (plain_of_quiet message.text_quiet)
      (fuel + 3) (',' :: hostMember host)
  rw [readList_comma hstatus, readList_comma herror, readList_comma hmessage, Option.map_map,
    Option.map_map]
  rfl

theorem parse_jsonBody (status : StatusCode) (message : ErrorMessage) (host : Str) :
    ∃ fuel, parse (jsonBody status message.text host) =
      (readList (readMember (readValue (fuel + 4))) '\x7d' (fuel + 1) (hostMember host)).bind fun y =>
        if (skipBlanks y.2).isEmpty then
          some (.object (("status".toList, .number (natToString status.code)) ::
            ("error".toList, .string (reasonOf status)) ::
            ("message".toList, .string message.text) :: y.1))
        else none := by
  have hfuel : ∃ fuel, ("status".toList ++ '"' :: ':' ::
      (natToString status.code ++ ',' :: errorMember status message.text host)).length + 2 =
        fuel + 4 := ⟨_, rfl⟩
  obtain ⟨fuel, hfuel⟩ := hfuel
  refine ⟨fuel, ?_⟩
  rw [jsonBody_eq, parse_object, hfuel, readList_jsonBody, Option.bind_map]
  rfl

theorem jsonBody_parses_iff (status : StatusCode) (message : ErrorMessage) (host : Str) :
    parse (jsonBody status message.text host) = some (errorObject status message.text host) ↔
      ∀ c ∈ displayed host, isPlain c = true := by
  have hkey : ∀ c ∈ "host".toList, isPlain c = true := List.all_eq_true.mp (by decide)
  obtain ⟨fuel, hparse⟩ := parse_jsonBody status message host
  rw [hparse]
  constructor
  · intro h
    obtain ⟨⟨members, left⟩, hlist, h⟩ := Option.bind_eq_some_iff.mp h
    dsimp only at h
    split at h
    · cases h
      obtain ⟨rest, hmember⟩ := readList_head hlist
      exact plain_of_readMember hkey (by decide) hmember
    · cases h
  · intro hplain
    have hmember : readMember (readValue (fuel + 4)) (hostMember host) = _ :=
      readMember_string hkey hplain (fuel + 3) ['\x7d', '\n']
    rw [readList_close (by decide) rfl hmember]
    rfl

end JsonBodies

section Pages

section Literals

theorem run_literal {chars : Str} (h : run .data chars = .data) :
    run .data (String.ofList chars).toList = .data :=
  of_chars (fun s => run .data s = .data) h

-- the style sheet is one long literal
set_option maxRecDepth 20000

theorem run_pageHead : run .data pageHead.toList = .data := by
  unfold pageHead
  exact run_literal (by decide +kernel)

theorem run_pageStyle : run .data pageStyle.toList = .data := by
  unfold pageStyle
  exact run_literal (by decide +kernel)

theorem run_pageMeta : run .data pageMeta.toList = .data := by
  unfold pageMeta
  exact run_literal (by decide +kernel)

end Literals

theorem run_code (status : StatusCode) : run .data (natToString status.code) = .data := by
  refine run_text fun c hc => ?_
  rintro rfl
  cases isAsciiDigit_of_mem_natToString hc

variable [HttpCrate]

def pageBefore (status : StatusCode) (message : Str) : Str :=
  pageHead.toList ++ natToString status.code ++ " ".toList ++ reasonOf status ++ pageStyle.toList ++
    natToString status.code ++ "</div>\n    <div class=\"status-title\">".toList ++ reasonOf status ++
    "</div>\n    <div class=\"description\">".toList ++ message ++ pageMeta.toList

def pageAfter (clientIp : Str) : Str :=
  "</span></div>\n      <div class=\"meta-box\"><span class=\"meta-label\">CLIENT IP</span><span class=\"meta-value\">".toList
    ++ displayed clientIp ++
    "</span></div>\n    </div>\n  </div>\n</body>\n</html>\n".toList

theorem renderHtmlErrorPage_eq (status : StatusCode) (message clientIp host : Str) :
    renderHtmlErrorPage status message clientIp host =
      pageBefore status message ++ displayed host ++ pageAfter clientIp := by
  unfold renderHtmlErrorPage pageBefore pageAfter
  simp only [List.append_assoc]

theorem run_pageBefore (status : StatusCode) (message : ErrorMessage) :
    run .data (pageBefore status message.text) = .data := by
  have hcode := run_code status
  have hreason := run_text (text_of_quiet (reasonOf_quiet status))
  have hmessage := run_text (text_of_quiet message.text_quiet)
  have htitle := run_append_data (run_append_data (run_append_data run_pageHead hcode)
    (run_literal (by decide : run .data [' '] = .data))) hreason
  have hstyle := run_append_data (run_append_data htitle run_pageStyle) hcode
  refine run_append_data (run_append_data (run_append_data (run_append_data
    (run_append_data hstyle ?_) hreason) ?_) hmessage) run_pageMeta
  · exact run_literal (by decide +kernel)
  · exact run_literal (by decide +kernel)

/-- The host is text of the page: it adds no markup to the page without a host, and stands
there escaped. -/
structure HostAsText (status : StatusCode) (message clientIp host : Str) : Prop where
  markup : tags (renderHtmlErrorPage status message clientIp host) =
    tags (renderHtmlErrorPage status message clientIp [])
  escaped : renderHtmlErrorPage status message clientIp host =
    pageBefore status message ++ escapeText (displayed host) ++ pageAfter clientIp

theorem tags_page {host : Str} (hhost : ∀ c ∈ displayed host, c ≠ '<') (status : StatusCode)
    (message : ErrorMessage) (clientIp : Str) :
    tags (renderHtmlErrorPage status message.text clientIp host) =
      tags (pageBefore status message.text) ++ tags (pageAfter clientIp) := by
  rw [renderHtmlErrorPage_eq, tags_text_between (run_pageBefore status message) hhost]

theorem hostAsText_iff (status : StatusCode) (message : ErrorMessage) (clientIp host : Str) :
    HostAsText status message.text clientIp host ↔ ∀ c ∈ displayed host, isMarkup c = false := by
  have hescaped : renderHtmlErrorPage status message.text clientIp host =
      pageBefore status message.text ++ escapeText (displayed host) ++ pageAfter clientIp ↔
        escapeText (displayed host) = displayed host := by
    rw [renderHtmlErrorPage_eq, List.append_left_inj, List.append_right_inj, eq_comm]
  constructor
  · intro h
    exact (escapeText_eq_iff _).mp (hescaped.mp h.escaped)
  · intro h
    have hhost : ∀ c ∈ displayed host, c ≠ '<' := by
      rintro c hc rfl
      cases h _ hc
    have hempty : ∀ c ∈ displayed [], c ≠ '<' := List.forall_iff_forall_mem.mp (by decide)
    refine ⟨?_, hescaped.mpr ((escapeText_eq_iff _).mpr h)⟩
    rw [tags_page hhost, tags_page hempty]

omit [HttpCrate] in
theorem collect_full (data : List UInt8) : (Body.full data).collect = some data := rfl

/-- The body of an error response is the JSON text or the page, and the host is data in them
exactly when it has no character that the text or the page gives a meaning to. -/
theorem errorBody_host_iff (status : StatusCode) (message : ErrorMessage) (clientIp host : Str)
    (headers : Option HeaderMap) :
    (buildErrorResponse status message.text clientIp host headers).body.collect =
        some (utf8 (if wantsJson headers then jsonBody status message.text host
          else renderHtmlErrorPage status message.text clientIp host)) ∧
      (parse (jsonBody status message.text host) = some (errorObject status message.text host) ↔
        ∀ c ∈ displayed host, isPlain c = true) ∧
      (HostAsText status message.text clientIp host ↔
        ∀ c ∈ displayed host, isMarkup c = false) := by
  refine ⟨?_, jsonBody_parses_iff status message host, hostAsText_iff status message clientIp host⟩
  unfold buildErrorResponse
  dsimp only
  split
  · exact collect_full _
  · exact collect_full _

end Pages

section Example
open ListCrates

/-- A quote in the host ends the JSON string, and a tag in the host is a tag of the page. -/
theorem unescaped_host :
    parse (jsonBody .badGateway ErrorMessage.unreachable.text "a\"b".toList) = none ∧
      "<b>".toList ∈ tags (renderHtmlErrorPage .badGateway ErrorMessage.unreachable.text
        "10.0.0.1".toList "<b>".toList) ∧
      ¬ HostAsText .badGateway ErrorMessage.unreachable.text "10.0.0.1".toList "<b>".toList := by
  refine ⟨?_, ?_, ?_⟩
  · obtain ⟨fuel, hparse⟩ := parse_jsonBody .badGateway .unreachable "a\"b".toList
    rw [hparse]
    rfl
  · rw [renderHtmlErrorPage_eq, tags_append (run_pageBefore _ _) (by decide)]
    exact List.mem_append_left _ (List.mem_append_right _ (by decide))
  · rw [hostAsText_iff]
    intro h
    cases h '<' (by decide)

end Example

end BarebonesProxy.ErrorPages
