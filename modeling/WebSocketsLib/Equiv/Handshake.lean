import WebSocketsLib.Client.Equiv.Base64
import WebSocketsLib.Client.Equiv.Connect
import WebSocketsLib.Server.Equiv.DoWrite
import WebSocketsLib.Server.Equiv.RequestRoundTrip
import WebSocketsLib.Server.ProcessSession

/-!
# The handshake between the client and the server

`handshake_agreement`: the request of the client is read as an upgrade of its path with its key, and
the client accepts the answer of the server exactly when there is a route for the path.
-/

namespace WebSocketsLib

/-! ### The text of a key -/

/-- The characters of base64 are printable. -/
theorem noSpace_char {n : ℕ} (h : n < 64) : isSpace (Base64.char n) = false := by
  have hall : ∀ m < 64, isSpace (Base64.char m) = false := by decide +kernel
  exact hall n h

theorem noSpace_generateKey (r : Bytes) :
    ∀ c ∈ WebSocketClient.generateKey r, isSpace c = false := by
  intro c hc
  rw [WebSocketClient.generateKey, WebSocketClient.base64Encode_eq] at hc
  obtain ⟨n, hn, rfl⟩ := Base64.mem_encodeZeroFilled hc
  exact noSpace_char hn

theorem noSpace_base64Encode {data : Bytes} : ∀ c ∈ base64Encode data, isSpace c = false := by
  intro c hc
  rw [base64Encode_eq] at hc
  rcases Base64.mem_encode hc with rfl | ⟨n, hn, rfl⟩
  · rfl
  · exact noSpace_char hn

theorem generateKey_ne_nil {r : Bytes} (hr : r.length = 16) :
    WebSocketClient.generateKey r ≠ [] := by
  intro hnil
  have hdecode := Base64.decode_encodeZeroFilled r
  rw [← WebSocketClient.base64Encode_eq, ← WebSocketClient.generateKey, hnil] at hdecode
  obtain ⟨rfl, -⟩ := List.nil_eq_append_iff.mp (Option.some.inj hdecode)
  cases hr

theorem noLf_of_noSpace {s : Bytes} (h : ∀ c ∈ s, isSpace c = false) : 0x0A ∉ s := by
  intro hmem
  cases h 0x0A hmem

/-! ### The request -/

section

variable {host path key : Bytes}

/-- The headers of the request. -/
def connectFields (host key : Bytes) : List (Bytes × Bytes) :=
  [(bytes "Host", host), (bytes "Upgrade", bytes "websocket"),
    (bytes "Connection", bytes "Upgrade"), (bytes "Sec-WebSocket-Key", key),
    (bytes "Sec-WebSocket-Version", bytes "13")]

def connectNames : List Bytes :=
  [bytes "Host", bytes "Upgrade", bytes "Connection", bytes "Sec-WebSocket-Key",
    bytes "Sec-WebSocket-Version"]

theorem connectRequest_eq_text (host path key : Bytes) :
    connectRequest host path key = Head.text
      { startLine := wordsLine (bytes "GET") path (bytes "HTTP/1.1"),
        entries := connectFields host key } := by
  simp [connectRequest, Head.text, wordsLine, connectFields, headerLine, bytes, crlf]

theorem isHeaderName_connectFields : ∀ e ∈ connectFields host key, IsHeaderName e.1 := by
  have hall : ∀ name ∈ connectNames, IsHeaderName name := by decide
  intro e he
  exact hall e.1 (List.mem_map_of_mem (f := Prod.fst) he)

theorem noLf_connectFields (hhost : 0x0A ∉ host) (hkey : 0x0A ∉ key) :
    ∀ e ∈ connectFields host key, 0x0A ∉ e.2 := by
  simp only [connectFields, List.forall_mem_cons, List.not_mem_nil, false_imp_iff, implies_true,
    and_true]
  exact ⟨hhost, by decide, by decide, hkey, by decide⟩

/-- The headers that the server reads. -/
def upgradeHeaders (host key : Bytes) : Headers where
  entries := connectFields (trim host) key
  distinct := by
    show (connectNames.map lower).Nodup
    decide

theorem contains_upgradeHeaders (name : Bytes) : (upgradeHeaders host key).contains name
    = connectNames.any fun n => caseInsensitiveEqual n name := rfl

theorem trim_connectFields (hkey : Trimmed key) :
    (upgradeHeaders host key).entries = (connectFields host key).map fun e => (e.1, trim e.2) := by
  have hconst : trim (bytes "websocket") = bytes "websocket" ∧
      trim (bytes "Upgrade") = bytes "Upgrade"
      ∧ trim (bytes "13") = bytes "13" := by decide
  simp only [upgradeHeaders, connectFields, List.map_cons, List.map_nil, hconst, hkey.trim_eq]

/-- The request as the server reads it. -/
def upgradeRequest (host path key : Bytes) : Request :=
  requestOf (bytes "GET") path (bytes "HTTP/1.1") (upgradeHeaders host key)

/-- It is an upgrade, with the key of the client. -/
theorem isWsUpgrade_upgradeRequest (host path key : Bytes) :
    (upgradeRequest host path key).isWsUpgrade = true := by
  show ((upgradeHeaders host key).contains _ && (upgradeHeaders host key).contains _
    && (upgradeHeaders host key).contains _) = true
  rw [contains_upgradeHeaders, contains_upgradeHeaders, contains_upgradeHeaders]
  decide

theorem getHeaderValue_upgradeRequest (host path key : Bytes) :
    (upgradeRequest host path key).getHeaderValue (bytes "Sec-WebSocket-Key") = key := by
  have hmem : (bytes "Sec-WebSocket-Key", key) ∈ (upgradeHeaders host key).entries := by
    simp [upgradeHeaders, connectFields]
  show ((upgradeHeaders host key).find? (bytes "Sec-WebSocket-Key")).getD [] = key
  rw [Headers.find?_of_mem hmem rfl]
  rfl

theorem path_upgradeRequest (host key : Bytes) (hquery : 0x3F ∉ path) :
    (upgradeRequest host path key).path = path := by
  show (splitTarget path).1 = path
  rw [splitTarget, List.idxOf?_eq_none_iff.mpr hquery]

variable (hhost : 0x0A ∉ host) (hpath : IsWord path) (hkey : ∀ c ∈ key, isSpace c = false)

include hhost hpath hkey

theorem parse_connectRequest :
    parseHttpRequest (connectRequest host path key) = upgradeRequest host path key := by
  rw [connectRequest_eq_text]
  exact parseHttpRequest_text (by decide) hpath (by decide) isHeaderName_connectFields
    (noLf_connectFields hhost (noLf_of_noSpace hkey)) (trim_connectFields (Trimmed.of_noSpace hkey))

theorem findEnd_connectRequest :
    Chunks.findEnd crlfcrlf (connectRequest host path key)
      = some (connectRequest host path key).length := by
  rw [connectRequest_eq_text]
  exact findEnd_text (by decide) hpath (by decide) isHeaderName_connectFields
    (noLf_connectFields hhost (noLf_of_noSpace hkey))

/-- The bytes of the request: there is no body. -/
theorem doRead_connectRequest {socket : Socket}
    (h : socket.unread = connectRequest host path key) :
    ∃ rest, doRead socket = some (upgradeRequest host path key, rest) := by
  have hno : (upgradeHeaders host key).contentLength = none := by
    apply Headers.contentLength_eq_none
    rw [contains_upgradeHeaders]
    decide
  have hlen : (parseHttpRequest (connectRequest host path key)).contentLength.getD 0
      = ([] : Bytes).length := by
    rw [parse_connectRequest hhost hpath hkey, Request.contentLength]
    show (upgradeHeaders host key).contentLength.getD 0 = 0
    rw [hno]
    rfl
  obtain ⟨rest, hread, -, -⟩ := doRead_spec
    ⟨connectRequest host path key, [], findEnd_connectRequest hhost hpath hkey, hlen⟩
    (y := []) (by rw [h, List.append_nil]; exact (List.append_nil _).symm)
  refine ⟨rest, ?_⟩
  rw [hread, WireRequest.value]
  show some ({ parseHttpRequest (connectRequest host path key) with body := [] }, rest) = _
  rw [parse_connectRequest hhost hpath hkey]
  rfl

end

/-! ### The answer -/

/-- What the client makes of an answer: it looks at the lines of the head. -/
theorem connect_answer {head : Head} {body f : Bytes} {client : Socket}
    (hlf : ∀ line ∈ head.lines, 0x0A ∉ line) (hline : head.startLine ≠ [])
    (h : client.unread = head.text ++ body ++ f) :
    (connect client).isSome ↔ ∃ line ∈ head.lines, bytes "101" <:+: line := by
  rw [Head.text_eq_headerText, List.append_assoc] at h
  refine connect_isSome_iff hlf ?_ h
  exact List.forall_mem_cons.mpr ⟨hline, fieldLine_ne_nil⟩

/-- The refusal for a path without a route. -/
def noRoute : Response :=
  Response.notFound (bytes "No such route for ws!")

/-- The lines of its head. -/
def noRouteLines : List Bytes :=
  [bytes "HTTP/1.1 404 Not Found", bytes "Content-Type: text/html", bytes "Content-Length: 76"]

/-- There is one header to put in order. -/
theorem lines_noRoute (o : HeaderOrder) : (noRoute.fullHead o).lines = noRouteLines := by
  have horder : o.order noRoute.headers.entries = [(bytes "Content-Type", bytes "text/html")] :=
    List.perm_singleton.mp (o.perm noRoute.headers.entries)
  have hlength : noRoute.body ≠ [] ∧ noRoute.headers.contains (bytes "content-length") = false := by
    decide
  rw [Head.lines, Response.fullHead, horder, if_pos hlength]
  decide

theorem noLf_noRoute (o : HeaderOrder) : ∀ line ∈ (noRoute.fullHead o).lines, 0x0A ∉ line := by
  rw [lines_noRoute]
  decide

theorem startLine_noRoute_ne_nil (o : HeaderOrder) : (noRoute.fullHead o).startLine ≠ [] := by
  show noRoute.statusLine ≠ []
  decide

theorem connect_noRoute (o : HeaderOrder) {f : Bytes} {client : Socket}
    (h : client.unread = noRoute.toStringFull o ++ f) : connect client = none := by
  have hno : ¬ ∃ line ∈ (noRoute.fullHead o).lines, bytes "101" <:+: line := by
    rw [lines_noRoute]
    decide
  rw [← connect_answer (noLf_noRoute o) (startLine_noRoute_ne_nil o) h] at hno
  exact Option.not_isSome_iff_eq_none.mp hno

/-- The head of the 101 response as it is written. -/
def acceptHead (o : HeaderOrder) (acceptKey : Bytes) : Head :=
  (prepareHeaders (build101Response acceptKey) 0).head o

def acceptFields (acceptKey : Bytes) : List (Bytes × Bytes) :=
  [(bytes "Upgrade", bytes "websocket"), (bytes "Connection", bytes "Upgrade"),
    (bytes "Sec-Websocket-Accept", acceptKey), (bytes "Content-Length", bytes "0")]

theorem startLine_acceptHead (o : HeaderOrder) (acceptKey : Bytes) :
    (acceptHead o acceptKey).startLine = bytes "HTTP/1.1 101 " := by
  have hline : bytes "HTTP/1.1" ++ bytes " " ++ bytes (toString (101 : ℤ)) ++ bytes " "
      ++ Response.reasonPhrase 101 = bytes "HTTP/1.1 101 " := by decide
  rw [acceptHead, prepareHeaders]
  split_ifs
  · exact hline
  · exact hline

theorem perm_acceptHead (o : HeaderOrder) (acceptKey : Bytes) :
    (acceptHead o acceptKey).entries.Perm (acceptFields acceptKey) :=
  o.perm (acceptFields acceptKey)

/-- The accept key in the answer is the one that has been computed. -/
theorem mem_acceptHead_iff {o : HeaderOrder} {acceptKey value : Bytes} :
    (bytes "Sec-Websocket-Accept", value) ∈ (acceptHead o acceptKey).entries
      ↔ value = acceptKey := by
  rw [(perm_acceptHead o acceptKey).mem_iff]
  simp [acceptFields, bytes]

theorem noLf_acceptHead (o : HeaderOrder) {acceptKey : Bytes} (hkey : 0x0A ∉ acceptKey) :
    ∀ line ∈ (acceptHead o acceptKey).lines, 0x0A ∉ line := by
  refine List.forall_mem_cons.mpr ⟨?_, noLf_fieldLine ?_ ?_⟩
  · rw [startLine_acceptHead]
    decide
  · intro e he
    rw [(perm_acceptHead o acceptKey).mem_iff] at he
    have hall : ∀ name ∈ (acceptFields acceptKey).map Prod.fst, IsHeaderName name := by
      show ∀ name ∈ [bytes "Upgrade", bytes "Connection", bytes "Sec-Websocket-Accept",
        bytes "Content-Length"], IsHeaderName name
      decide
    exact (hall e.1 (List.mem_map_of_mem he)).noLf
  · intro e he
    rw [(perm_acceptHead o acceptKey).mem_iff] at he
    have hall : ∀ value ∈ (acceptFields acceptKey).map Prod.snd, 0x0A ∉ value := by
      simp only [acceptFields, List.map_cons, List.map_nil, List.forall_mem_cons]
      exact ⟨by decide, by decide, hkey, by decide, fun _ hv => absurd hv List.not_mem_nil⟩
    exact hall e.2 (List.mem_map_of_mem he)

theorem startLine_acceptHead_ne_nil (o : HeaderOrder) (acceptKey : Bytes) :
    (acceptHead o acceptKey).startLine ≠ [] := by
  rw [startLine_acceptHead]
  decide

theorem connect_acceptHead (o : HeaderOrder) {acceptKey f : Bytes} {client : Socket}
    (hkey : 0x0A ∉ acceptKey) (h : client.unread = (acceptHead o acceptKey).text ++ f) :
    (connect client).isSome := by
  have hstatus : bytes "101" <:+: (acceptHead o acceptKey).startLine := by
    rw [startLine_acceptHead]
    decide
  rw [← List.append_nil (acceptHead o acceptKey).text] at h
  exact (connect_answer (noLf_acceptHead o hkey) (startLine_acceptHead_ne_nil o acceptKey) h).mpr
    ⟨_, List.mem_cons_self .., hstatus⟩

/-! ### The handshake -/

/-- What the server answers, with SHA-1 for the accept key. -/
def answer (cfg : SessionConfig) (sha1 : Sha1) (x : Exchange) : List Write :=
  (serve { cfg with wsAcceptKey := wsAcceptKey sha1 } x).out

section

variable (cfg : SessionConfig) (sha1 : Sha1) (x : Exchange) {key : Bytes}

/-- The answer to an upgrade of a path with a route. -/
theorem answer_route (hup : x.req.isWsUpgrade = true) (hroute : cfg.findWs x.req.path ≠ none)
    (hkey : x.req.getHeaderValue (bytes "Sec-WebSocket-Key") = key) (hne : key ≠ [])
    (hok : x.os.write = none) :
    answer cfg sha1 x = [Write.head (acceptHead cfg.order (wsAcceptKey sha1 key))
      (acceptHead cfg.order (wsAcceptKey sha1 key)).text] := by
  obtain ⟨handlers, hfind⟩ := Option.ne_none_iff_exists'.mp hroute
  have hregular : doWrite cfg.toBuild cfg.socketType x.os
      (build101Response (wsAcceptKey sha1 key))
      = asyncWrite (acceptHead cfg.order (wsAcceptKey sha1 key)) [] x.os.write := rfl
  rw [hok, asyncWrite_head] at hregular
  rw [answer, serve, if_pos hup, hfind]
  simp only [hkey, if_neg hne, Output.bind_out]
  exact congrArg (fun w : Writing Unit => w.out ++ w.result.elim [] fun _ => []) hregular

/-- The answer to an upgrade of another path. -/
theorem answer_noRoute (hup : x.req.isWsUpgrade = true) (hroute : cfg.findWs x.req.path = none)
    (hok : x.os.write = none) :
    (answer cfg sha1 x).flatMap Write.sent = noRoute.toStringFull cfg.order := by
  have hrefusal : writeRefusal cfg.toBuild x.os noRoute
      = asyncWrite (noRoute.fullHead cfg.order) noRoute.body x.os.write := rfl
  have hout : answer cfg sha1 x
      = (asyncWrite (noRoute.fullHead cfg.order) noRoute.body none).out := by
    rw [hok] at hrefusal
    rw [answer, serve, if_pos hup, hroute]
    simp only [Output.bind_out]
    exact (congrArg (fun w : Writing Unit => w.out ++ w.result.elim [] fun _ => []) hrefusal).trans
      (List.append_nil _)
  rw [hout]
  exact sent_asyncWrite _ _

end

/-- **Handshake agreement**: `do_read` returns a GET of the path that is an upgrade with the key of
the client; with a route for the path the answer has the accept key for it and `connect` returns,
and without one `connect` throws.  This is so for every iteration order of the headers, however the
streams are cut, and whatever follows the answer. -/
theorem handshake_agreement (cfg : SessionConfig) (sha1 : Sha1) (r host path : Bytes)
    (hr : r.length = 16) (hhost : 0x0A ∉ host) (hpath : IsWord path) (hquery : 0x3F ∉ path)
    (socket : Socket)
    (h : socket.unread = connectRequest host path (WebSocketClient.generateKey r)) :
    ∃ req rest, doRead socket = some (req, rest) ∧
      req.method = .get ∧ req.target = path ∧ req.path = path ∧ req.isWsUpgrade = true ∧
      req.getHeaderValue (bytes "Sec-WebSocket-Key") = WebSocketClient.generateKey r ∧
      ∀ (resp : Option Response) (os : Outcomes) (f : Bytes) (client : Socket), os.write = none →
        client.unread = (answer cfg sha1 { req, resp, os }).flatMap Write.sent ++ f →
        (cfg.findWs path ≠ none → ∃ head,
          answer cfg sha1 { req, resp, os } = [Write.head head head.text] ∧
          (∀ value, (bytes "Sec-Websocket-Accept", value) ∈ head.entries ↔ value =
            Base64.encode (sha1.digest (WebSocketClient.generateKey r
              ++ bytes "258EAFA5-E914-47DA-95CA-C5AB0DC85B11"))) ∧
          (connect client).isSome) ∧
        (cfg.findWs path = none → connect client = none) := by
  have hup := isWsUpgrade_upgradeRequest host path (WebSocketClient.generateKey r)
  have hvalue := getHeaderValue_upgradeRequest host path (WebSocketClient.generateKey r)
  have hroute := path_upgradeRequest host (WebSocketClient.generateKey r) hquery
  obtain ⟨rest, hread⟩ := doRead_connectRequest hhost hpath (noSpace_generateKey r) h
  refine ⟨_, rest, hread, rfl, rfl, hroute, hup, hvalue, ?_⟩
  intro resp os f client hok hclient
  constructor
  · intro hfind
    rw [← hroute] at hfind
    have hout := answer_route cfg sha1
      { req := upgradeRequest host path (WebSocketClient.generateKey r), resp, os }
      hup hfind hvalue (generateKey_ne_nil hr) hok
    rw [hout, List.flatMap_singleton] at hclient
    have haccept : wsAcceptKey sha1 (WebSocketClient.generateKey r)
        = Base64.encode (sha1.digest (WebSocketClient.generateKey r
          ++ bytes "258EAFA5-E914-47DA-95CA-C5AB0DC85B11")) :=
      base64Encode_eq _
    exact ⟨_, hout, fun value => by rw [← haccept]; exact mem_acceptHead_iff,
      connect_acceptHead cfg.order (noLf_of_noSpace noSpace_base64Encode) hclient⟩
  · intro hfind
    rw [← hroute] at hfind
    rw [answer_noRoute cfg sha1 _ hup hfind hok] at hclient
    exact connect_noRoute cfg.order hclient

/-- A server with one route. -/
def routedServer : SessionConfig where
  useSsl := false
  findWs := fun path => if path = bytes "/chat" then some {} else none
  platform := .linux
  order := reverseOrder
  wsAcceptKey := id

/-- Some function to twenty bytes. -/
def zeroDigest : Sha1 where
  digest := fun _ => List.replicate 20 0
  length_digest := fun _ => rfl

/-- A request for its route. -/
def routedRequest : Bytes :=
  connectRequest (bytes "localhost") (bytes "/chat")
    (WebSocketClient.generateKey (List.replicate 16 7))

theorem handshake_agreement_routed :
    ∃ req rest, doRead [routedRequest.take 30, routedRequest.drop 30] = some (req, rest) ∧
      req.path = bytes "/chat" ∧
      ∀ client : Socket,
        client.unread = (answer routedServer zeroDigest { req, resp := none, os := {} }).flatMap
          Write.sent ++ [] → (connect client).isSome := by
  have hunread : Socket.unread [routedRequest.take 30, routedRequest.drop 30] = routedRequest := by
    rw [Socket.unread, List.flatten_cons, List.flatten_singleton]
    exact List.take_append_drop 30 routedRequest
  obtain ⟨req, rest, hread, -, -, hpath, -, -, hanswer⟩ :=
    handshake_agreement routedServer zeroDigest (List.replicate 16 7) (bytes "localhost")
      (bytes "/chat") rfl (by decide) (by decide) (by decide) _ hunread
  refine ⟨req, rest, hread, hpath, ?_⟩
  intro client hclient
  have hroute : routedServer.findWs (bytes "/chat") ≠ none := by
    show (if bytes "/chat" = bytes "/chat" then some ({} : WsHandlers) else none) ≠ none
    rw [if_pos rfl]
    exact Option.some_ne_none _
  obtain ⟨-, -, -, hsome⟩ := (hanswer none {} [] client rfl hclient).1 hroute
  exact hsome

end WebSocketsLib
