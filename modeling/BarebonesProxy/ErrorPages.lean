import BarebonesProxy.Http

set_option autoImplicit false

/-! # The error pages of `error_pages.rs` -/
namespace BarebonesProxy.ErrorPages
open RustStrings Http

def pageHead : String :=
  "<!DOCTYPE html>
<html lang=\"en\">
<head>
  <meta charset=\"UTF-8\">
  <meta name=\"viewport\" content=\"width=device-width, initial-scale=1.0\">
  <title>"

def pageStyle : String :=
  "</title>
  <style>
    * \x7b box-sizing: border-box; margin: 0; padding: 0; \x7d
    body \x7b
      background-color: #f1f5f9;
      background-image: linear-gradient(rgba(15, 23, 42, 0.04) 50%, transparent 50%);
      background-size: 100% 4px;
      color: #0f172a;
      font-family: \"Courier New\", Courier, Monaco, \"Lucida Console\", monospace;
      display: flex;
      align-items: center;
      justify-content: center;
      min-height: 100vh;
      padding: 20px;
    \x7d
    .card \x7b
      background-color: #ffffff;
      border: 4px solid #0f172a;
      box-shadow: 8px 8px 0px #0f172a;
      padding: 36px 32px;
      max-width: 480px;
      width: 100%;
      text-align: center;
    \x7d
    .banner \x7b
      display: inline-block;
      background-color: #0f172a;
      color: #38bdf8;
      font-size: 11px;
      font-weight: 700;
      letter-spacing: 2px;
      padding: 4px 12px;
      margin-bottom: 20px;
      text-transform: uppercase;
      border: 2px solid #0f172a;
    \x7d
    .status-code \x7b
      font-size: 64px;
      font-weight: 900;
      line-height: 1;
      color: #dc2626;
      text-shadow: 3px 3px 0px #0f172a;
      margin-bottom: 12px;
      letter-spacing: 2px;
    \x7d
    .status-title \x7b
      font-size: 20px;
      font-weight: 700;
      color: #0f172a;
      text-transform: uppercase;
      letter-spacing: 1px;
      margin-bottom: 16px;
    \x7d
    .description \x7b
      font-size: 13px;
      color: #334155;
      line-height: 1.6;
      margin-bottom: 28px;
      font-weight: 600;
    \x7d
    .pixel-divider \x7b
      border-top: 4px dashed #0f172a;
      margin-bottom: 20px;
    \x7d
    .meta \x7b
      display: flex;
      justify-content: space-between;
      gap: 12px;
      font-size: 11px;
    \x7d
    .meta-box \x7b
      flex: 1;
      background-color: #f8fafc;
      border: 2px solid #0f172a;
      box-shadow: 3px 3px 0px #0f172a;
      padding: 8px 6px;
      word-break: break-all;
      text-align: left;
    \x7d
    .meta-label \x7b
      display: block;
      font-weight: 700;
      color: #64748b;
      font-size: 9px;
      text-transform: uppercase;
      letter-spacing: 1px;
      margin-bottom: 2px;
    \x7d
    .meta-value \x7b
      font-weight: 700;
      color: #0f172a;
    \x7d
  </style>
</head>
<body>
  <div class=\"card\">
    <div class=\"banner\">[ PROXY EXCEPTION ]</div>
    <div class=\"status-code\">"

def pageMeta : String :=
  "</div>
    <div class=\"pixel-divider\"></div>
    <div class=\"meta\">
      <div class=\"meta-box\"><span class=\"meta-label\">TARGET HOST</span><span class=\"meta-value\">"

variable [HttpCrate]

def reasonOf (status : StatusCode) : Str :=
  (HttpCrate.canonicalReason status).getD "Error".toList

/-- The messages that `handle_request` passes to `error_response`. -/
inductive ErrorMessage where
  | rateLimit
  | payloadTooLarge
  | authentication
  | noForwardAuth
  | unreachable
  | upstream (status : StatusCode)

def ErrorMessage.text : ErrorMessage → Str
  | .rateLimit => "Request rate limit exceeded. Please wait before retrying.".toList
  | .payloadTooLarge => "The request payload body exceeds the maximum allowed size limit.".toList
  | .authentication => "An internal authentication error occurred.".toList
  | .noForwardAuth =>
    ("Route requires authentication ('auth on;') but no 'forward_auth' URL is " ++
      "configured in security block.").toList
  | .unreachable => "The proxy was unable to connect to the upstream backend server.".toList
  | .upstream status => "Upstream server returned error: ".toList ++ reasonOf status

def displayed (s : Str) : Str := if s.isEmpty then "-".toList else s

def renderHtmlErrorPage (status : StatusCode) (message clientIp host : Str) : Str :=
  let code := natToString status.code
  let reason := reasonOf status
  pageHead.toList ++ code ++ " ".toList ++ reason ++ pageStyle.toList ++ code ++
    "</div>\n    <div class=\"status-title\">".toList ++ reason ++
    "</div>\n    <div class=\"description\">".toList ++ message ++ pageMeta.toList ++
    displayed host ++
    "</span></div>\n      <div class=\"meta-box\"><span class=\"meta-label\">CLIENT IP</span><span class=\"meta-value\">".toList
      ++ displayed clientIp ++
    "</span></div>\n    </div>\n  </div>\n</body>\n</html>\n".toList

def wantsJson (headers : Option HeaderMap) : Bool :=
  match headers.bind (HeaderMap.getStr · .accept) with
  | some accept => contains accept "application/json".toList
  | none => false

def jsonBody (status : StatusCode) (message host : Str) : Str :=
  "\x7b\"status\":".toList ++ natToString status.code ++ ",\"error\":\"".toList ++
    reasonOf status ++ "\",\"message\":\"".toList ++ message ++ "\",\"host\":\"".toList ++
    displayed host ++ "\"\x7d\n".toList

def buildErrorResponse (status : StatusCode) (message clientIp host : Str)
    (headers : Option HeaderMap) : Response :=
  let typed (contentType : String) :=
    HttpCrate.append HttpCrate.empty .contentType (HttpCrate.fromStatic contentType.toList)
  if wantsJson headers then
    ⟨status, typed "application/json", .full (utf8 (jsonBody status message host))⟩
  else
    ⟨status, typed "text/html; charset=utf-8",
      .full (utf8 (renderHtmlErrorPage status message clientIp host))⟩

end BarebonesProxy.ErrorPages
